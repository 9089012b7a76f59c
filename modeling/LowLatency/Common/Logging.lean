import LowLatency.Common.LFQueue
import Mathlib.Data.List.TakeWhile

namespace LowLatency.Common

def NUL : Char := Char.ofNat 0

/-- `F` and `D` stand for `float` and `double`. -/
inductive LogElement (F D : Type)
  | CHAR (c : Char)
  | INTEGER (i : ℤ)
  | LONG_INTEGER (l : ℤ)
  | LONG_LONG_INTEGER (ll : ℤ)
  | UNSIGNED_INTEGER (u : ℕ)
  | UNSIGNED_LONG_INTEGER (ul : ℕ)
  | UNSIGNED_LONG_LONG_INTEGER (ull : ℕ)
  | FLOAT (f : F)
  | DOUBLE (d : D)
  deriving DecidableEq, Repr

/-- What a `const char*` points to: the characters before the terminator. -/
structure CString where
  chars : List Char
  unterminated : NUL ∉ chars
  deriving DecidableEq

def CString.memory (s : CString) : List Char := s.chars ++ [NUL]

/-- An argument of a call. A number is the element of its type; a `std::string` may contain
terminators of its own. -/
inductive LogValue (F D : Type)
  | element (e : LogElement F D)
  | text (s : CString)
  | string (chars : List Char)
  deriving DecidableEq

/-- A call that does not return, with the queue that it leaves behind. -/
structure LogHalt (F D : Type) where
  fault : Fault
  queue : LFQueue (LogElement F D)
  deriving DecidableEq, Repr

namespace Logger

variable {F D : Type}

/-- The loop over the characters of a string. A pointer is the rest of the memory, and what lies
beyond it is not to be read. -/
def pushText (q : LFQueue (LogElement F D)) : List Char →
    Except (LogHalt F D) (LFQueue (LogElement F D))
  | [] => .error ⟨.outOfBounds, q⟩
  | c :: s => if c = NUL then .ok q else pushText (q.write (.CHAR c)) s

def pushValue (q : LFQueue (LogElement F D)) : LogValue F D →
    Except (LogHalt F D) (LFQueue (LogElement F D))
  | .element e => .ok (q.write e)
  | .text s => pushText q s.memory
  | .string chars => pushText q (chars ++ [NUL])

/-- The overload for a format without arguments. -/
def logRest (q : LFQueue (LogElement F D)) : List Char →
    Except (LogHalt F D) (LFQueue (LogElement F D))
  | [] => .error ⟨.outOfBounds, q⟩
  | c :: s =>
    if c = NUL then .ok q
    else if c = '%' then
      match s with
      | [] => .error ⟨.outOfBounds, q⟩
      | c' :: s' =>
        if c' = '%' then logRest (q.write (.CHAR c')) s'
        else .error ⟨.fatal "missing arguments to log()", q⟩
    else logRest (q.write (.CHAR c)) s

/-- The overload for a first argument, where `rest` is the call for the others. -/
def logValue (value : LogValue F D)
    (rest : LFQueue (LogElement F D) → List Char → Except (LogHalt F D) (LFQueue (LogElement F D)))
    (q : LFQueue (LogElement F D)) : List Char → Except (LogHalt F D) (LFQueue (LogElement F D))
  | [] => .error ⟨.outOfBounds, q⟩
  | c :: s =>
    if c = NUL then .error ⟨.fatal "Extra arguments provided to log()", q⟩
    else if c = '%' then
      match s with
      | [] => .error ⟨.outOfBounds, q⟩
      | c' :: s' =>
        if c' = '%' then logValue value rest (q.write (.CHAR c')) s'
        else do
          let q ← pushValue q value
          rest q s
    else logValue value rest (q.write (.CHAR c)) s

def log (q : LFQueue (LogElement F D)) (args : List (LogValue F D)) (s : List Char) :
    Except (LogHalt F D) (LFQueue (LogElement F D)) :=
  match args with
  | [] => logRest q s
  | value :: args => logValue value (fun q s ↦ log q args s) q s

inductive Piece
  | char (c : Char)
  | slot
  deriving DecidableEq, Repr

def pieces : List Char → List Piece
  | '%' :: '%' :: s => .char '%' :: pieces s
  | '%' :: s => .slot :: pieces s
  | c :: s => .char c :: pieces s
  | [] => []

def elements : LogValue F D → List (LogElement F D)
  | .element e => [e]
  | .text s => s.chars.map .CHAR
  | .string chars => (chars.takeWhile (· ≠ NUL)).map .CHAR

/-- The pieces with the arguments in their places, up to the first place that has none. -/
def expand : List Piece → List (LogValue F D) → List (LogElement F D)
  | .char c :: ps, args => .CHAR c :: expand ps args
  | .slot :: ps, value :: args => elements value ++ expand ps args
  | .slot :: _, [] => []
  | [], _ => []

/-- What a call does, by the places of its format: the elements are written either way, and a call
with too few or too many arguments ends after what it could write. -/
def outcome (q : LFQueue (LogElement F D)) (args : List (LogValue F D)) (ps : List Piece) :
    Except (LogHalt F D) (LFQueue (LogElement F D)) :=
  if ps.count .slot = args.length then .ok (q.writes (expand ps args))
  else if args.length < ps.count .slot then
    .error ⟨.fatal "missing arguments to log()", q.writes (expand ps args)⟩
  else .error ⟨.fatal "Extra arguments provided to log()", q.writes (expand ps args)⟩

variable {q : LFQueue (LogElement F D)} {value : LogValue F D} {args : List (LogValue F D)}
  {c : Char} {s : List Char}

section Values

theorem pushText_eq (chars : List Char) : pushText q (chars ++ [NUL]) =
    .ok (q.writes ((chars.takeWhile (· ≠ NUL)).map .CHAR)) := by
  induction chars generalizing q with
  | nil => rfl
  | cons c s ih =>
    rw [List.cons_append, pushText]
    by_cases hc : c = NUL
    · rw [if_pos hc, List.takeWhile_cons_of_neg (by simpa using hc)]
      rfl
    · rw [if_neg hc, ih, List.takeWhile_cons_of_pos (by simpa using hc)]
      rfl

theorem pushValue_eq (q : LFQueue (LogElement F D)) (value : LogValue F D) :
    pushValue q value = .ok (q.writes (elements value)) := by
  cases value with
  | element e => rfl
  | text s =>
    have htake : s.chars.takeWhile (· ≠ NUL) = s.chars := by
      rw [List.takeWhile_eq_self_iff]
      intro c hc
      simpa using ne_of_mem_of_not_mem hc s.unterminated
    rw [pushValue, CString.memory, pushText_eq, htake, elements]
  | string chars => exact pushText_eq chars

end Values

section Scan

theorem log_terminator (q : LFQueue (LogElement F D)) (args : List (LogValue F D)) :
    log q args [NUL] = if args = [] then .ok q
      else .error ⟨.fatal "Extra arguments provided to log()", q⟩ := by
  cases args with
  | nil => rfl
  | cons value args => rfl

theorem log_char (hc : c ≠ NUL) (hp : c ≠ '%') :
    log q args (c :: s) = log (q.write (.CHAR c)) args s := by
  cases args with
  | nil =>
    rw [log, logRest.eq_def, log]
    exact (if_neg hc).trans (if_neg hp)
  | cons value args =>
    rw [log, logValue.eq_def, log]
    exact (if_neg hc).trans (if_neg hp)

theorem log_escape (q : LFQueue (LogElement F D)) (args : List (LogValue F D)) (s : List Char) :
    log q args ('%' :: '%' :: s) = log (q.write (.CHAR '%')) args s := by
  cases args with
  | nil => rfl
  | cons value args => rfl

theorem log_missing (hc : c ≠ '%') : log q [] ('%' :: c :: s) =
    .error ⟨.fatal "missing arguments to log()", q⟩ := by
  rw [log, logRest, if_neg (by decide), if_pos rfl]
  exact if_neg hc

theorem log_slot (hc : c ≠ '%') : log q (value :: args) ('%' :: c :: s) =
    log (q.writes (elements value)) args (c :: s) := by
  rw [log, logValue, if_neg (by decide), if_pos rfl]
  refine (if_neg hc).trans ?_
  rw [pushValue_eq, ok_bind]

theorem exists_next (h : ∀ s', s ≠ '%' :: s') : ∃ c s', s ++ [NUL] = c :: s' ∧ c ≠ '%' := by
  cases s with
  | nil => exact ⟨NUL, [], rfl, by decide⟩
  | cons c s' => exact ⟨c, s' ++ [NUL], rfl, fun hc ↦ h s' (hc ▸ rfl)⟩

end Scan

section Outcome

variable {ps : List Piece}

theorem outcome_char : outcome q args (.char c :: ps) = outcome (q.write (.CHAR c)) args ps := by
  rw [outcome, outcome, expand, LFQueue.writes_cons, List.count_cons_of_ne (by simp)]

theorem outcome_slot :
    outcome q (value :: args) (.slot :: ps) = outcome (q.writes (elements value)) args ps := by
  rw [outcome, outcome, expand, LFQueue.writes_append, List.count_cons_self, List.length_cons]
  simp only [Nat.add_right_cancel_iff, Nat.add_lt_add_iff_right]

theorem outcome_missing :
    outcome q [] (.slot :: ps) = .error ⟨.fatal "missing arguments to log()", q⟩ := by
  rw [outcome, List.count_cons_self, List.length_nil, if_neg (Nat.succ_ne_zero _),
    if_pos (Nat.succ_pos _)]
  rfl

theorem outcome_nil : outcome q args [] = if args = [] then .ok q
    else .error ⟨.fatal "Extra arguments provided to log()", q⟩ := by
  cases args with
  | nil => rfl
  | cons value args => rfl

theorem log_memory (h : NUL ∉ s) : log q args (s ++ [NUL]) = outcome q args (pieces s) := by
  induction s using pieces.induct generalizing q args with
  | case1 s ih =>
    have hs : NUL ∉ s := fun hs ↦ h (.tail _ (.tail _ hs))
    rw [List.cons_append, List.cons_append, log_escape, ih hs, pieces, outcome_char]
  | case2 s hnext ih =>
    obtain ⟨c, s', hc, hne⟩ := exists_next hnext
    have hs : NUL ∉ s := fun hs ↦ h (.tail _ hs)
    rw [List.cons_append, pieces.eq_2 _ hnext]
    cases args with
    | nil => rw [hc, log_missing hne, outcome_missing]
    | cons value args => rw [hc, log_slot hne, ← hc, ih hs, outcome_slot]
  | case3 c s hne hp ih =>
    have hs : NUL ∉ s := fun hs ↦ h (.tail _ hs)
    have hc : c ≠ NUL := fun hc ↦ h (hc ▸ .head _)
    rw [List.cons_append, log_char hc hp, ih hs, pieces.eq_3 _ _ hne hp, outcome_char]
  | case4 => rw [List.nil_append, log_terminator, pieces, outcome_nil]

/-- Every call ends as its format and the number of its arguments say, and reads no character
beyond the terminator. What it has written is next in the queue, if there is room for it. -/
theorem log_expands (q : LFQueue (LogElement F D)) (args : List (LogValue F D)) (s : CString) :
    let es := expand (pieces s.chars) args
    let slots := (pieces s.chars).count .slot
    log q args s.memory =
      (if slots = args.length then .ok (q.writes es)
      else if args.length < slots then
        .error ⟨.fatal "missing arguments to log()", q.writes es⟩
      else .error ⟨.fatal "Extra arguments provided to log()", q.writes es⟩) ∧
    ∀ n xs r, n < 2 ^ 64 → q.Holds n xs r → xs.length + es.length ≤ r + n →
      (q.writes es).Holds n (xs ++ es) r :=
  ⟨log_memory s.unterminated, fun _ _ _ hn hq hroom ↦ hq.writes hn hroom⟩

theorem pieces_run (n : ℕ) (h : ∀ s', s ≠ '%' :: s') : pieces (List.replicate n '%' ++ s) =
    List.replicate (n / 2) (.char '%') ++ List.replicate (n % 2) .slot ++ pieces s := by
  induction n using Nat.twoStepInduction with
  | zero => rfl
  | one => exact pieces.eq_2 _ h
  | more n ih _ =>
    rw [Nat.add_div_right n (by decide), Nat.add_mod_right]
    exact congrArg (Piece.char '%' :: ·) ih

end Outcome

end Logger

end LowLatency.Common
