import LowLatency.Common.Logging

namespace LowLatency.Common

structure Printer (F D : Type) where
  float : F → List Char
  double : D → List Char

namespace Printer

variable {F D : Type}

def put (p : Printer F D) : LogElement F D → List Char
  | .CHAR c => [c]
  | .INTEGER i | .LONG_INTEGER i | .LONG_LONG_INTEGER i => (toString i).toList
  | .UNSIGNED_INTEGER u | .UNSIGNED_LONG_INTEGER u | .UNSIGNED_LONG_LONG_INTEGER u => (toString u).toList
  | .FLOAT f => p.float f
  | .DOUBLE d => p.double d

def text (p : Printer F D) (es : List (LogElement F D)) : List Char := es.flatMap p.put

theorem text_append (p : Printer F D) (es es' : List (LogElement F D)) :
    p.text (es ++ es') = p.text es ++ p.text es' := List.flatMap_append

end Printer

/-- A call of `log` on its way: the rest of the format and of the arguments, and what is yet to be pushed of
the argument in hand. -/
structure LogCall (F D : Type) where
  format : List Char
  args : List (LogValue F D)
  value : List (LogElement F D)

namespace LogCall

variable {F D : Type}

/-- What the call pushes next, if it does, and where it is then, unless it has returned. -/
def step (c : LogCall F D) : Except Fault (List (LogElement F D) × Option (LogCall F D)) :=
  match c.value with
  | e :: value => .ok ([e], some { c with value := value })
  | [] => match c.format with
    | [] => .error .outOfBounds
    | ch :: s =>
      if ch = NUL then match c.args with
        | [] => .ok ([], none)
        | _ :: _ => .error (.fatal "Extra arguments provided to log()")
      else if ch = '%' then match s with
        | [] => .error .outOfBounds
        | ch' :: s' =>
          if ch' = '%' then .ok ([.CHAR ch'], some ⟨s', c.args, []⟩)
          else match c.args with
            | [] => .error (.fatal "missing arguments to log()")
            | value :: args => .ok ([], some ⟨s, args, Logger.elements value⟩)
      else .ok ([.CHAR ch], some ⟨s, c.args, []⟩)

def chars (c : LogCall F D) : List Char := c.format.takeWhile (· ≠ NUL)

def rest (c : LogCall F D) : List (LogElement F D) := c.value ++ Logger.expand (Logger.pieces c.chars) c.args

def Fits (c : LogCall F D) : Prop := (Logger.pieces c.chars).count .slot = c.args.length

def Terminated (c : LogCall F D) : Prop := c.format = c.chars ++ [NUL]

end LogCall

/-- The thread that logs has a call on its way, and others to make. The logger thread has printed the
element at the read index, or not yet. -/
structure LogThreads (F D : Type) where
  calls : List (CString × List (LogValue F D))
  call : Option (LogCall F D)
  queue : LFQueue (LogElement F D)
  printed : Bool
  file : List Char

inductive LogTurn
  | caller
  | logger
  deriving DecidableEq, Repr

namespace LogThreads

variable {F D : Type}

def start (n : ℕ) (calls : List (CString × List (LogValue F D))) : LogThreads F D :=
  ⟨calls, none, .new n (.CHAR NUL), false, []⟩

def caller (s : LogThreads F D) : Except Fault (LogThreads F D) :=
  match s.call with
  | some c => do
    let (pushed, call) ← c.step
    return { s with call := call, queue := s.queue.writes pushed }
  | none => match s.calls with
    | [] => .ok s
    | (format, args) :: calls => .ok { s with calls := calls, call := some ⟨format.memory, args, []⟩ }

/-- The next step of the loops of `flushQueue`. -/
def flushQueue (p : Printer F D) (pthreadSelf : ℕ) (s : LogThreads F D) : Except Fault (LogThreads F D) :=
  if s.printed then do
    let queue ← s.queue.updateReadIndex pthreadSelf
    return { s with queue := queue, printed := false }
  else match s.queue.getNextToRead with
    | none => .ok s
    | some slot =>
      if s.queue.size = 0 then .ok s
      else do
        let e ← s.queue.element slot
        return { s with file := s.file ++ p.put e, printed := true }

def step (p : Printer F D) (pthreadSelf : ℕ) (s : LogThreads F D) : LogTurn → Except Fault (LogThreads F D)
  | .caller => s.caller
  | .logger => s.flushQueue p pthreadSelf

def pushes (s : LogThreads F D) : Bool :=
  match s.call with
  | none => false
  | some c => match c.step with
    | .ok (_ :: _, _) => true
    | _ => false

def HasRoom (n : ℕ) (s : LogThreads F D) (turn : LogTurn) : Prop :=
  turn = .caller → s.pushes → s.queue.size < n

instance (n : ℕ) (s : LogThreads F D) : DecidablePred (s.HasRoom n) := fun _ ↦
  inferInstanceAs (Decidable (_ → _ → _))

def callRest : Option (LogCall F D) → List (LogElement F D)
  | none => []
  | some c => c.rest

def logged (call : CString × List (LogValue F D)) : List (LogElement F D) :=
  Logger.expand (Logger.pieces call.1.chars) call.2

def rest (s : LogThreads F D) : List (LogElement F D) := callRest s.call ++ s.calls.flatMap logged

/-- What the queue holds behind the element that is printed. -/
def unread (s : LogThreads F D) : List (LogElement F D) := s.queue.unread.drop s.printed.toNat

def CallFits (call : CString × List (LogValue F D)) : Prop :=
  (Logger.pieces call.1.chars).count .slot = call.2.length

end LogThreads

section Call

namespace LogCall

open Logger LogThreads

variable {F D : Type} {c c' : LogCall F D} {s : List Char} {args : List (LogValue F D)}
  {value : List (LogElement F D)}

theorem chars_memory (hs : NUL ∉ s) : (⟨s ++ [NUL], args, value⟩ : LogCall F D).chars = s := by
  have hall : ∀ c ∈ s, decide (c ≠ NUL) = true := fun c hc ↦ decide_eq_true (ne_of_mem_of_not_mem hc hs)
  rw [chars, List.takeWhile_append_of_pos hall]
  simp

theorem terminated_memory (hs : NUL ∉ s) : (⟨s ++ [NUL], args, value⟩ : LogCall F D).Terminated := by
  rw [Terminated, chars_memory hs]

theorem rest_memory (hs : NUL ∉ s) :
    (⟨s ++ [NUL], args, value⟩ : LogCall F D).rest = value ++ expand (pieces s) args := by
  rw [rest, chars_memory hs]

theorem fits_memory (hs : NUL ∉ s) :
    (⟨s ++ [NUL], args, value⟩ : LogCall F D).Fits ↔ (pieces s).count .slot = args.length := by
  rw [Fits, chars_memory hs]

structure Goes (c : LogCall F D) (r : List (LogElement F D) × Option (LogCall F D)) : Prop where
  length_le : r.1.length ≤ 1
  rest : r.1 ++ callRest r.2 = c.rest
  next : ∀ c' ∈ r.2, c'.Terminated ∧ (c'.Fits ↔ c.Fits)

/-- How a call ends that has too few arguments, or too many. -/
def Misfit (e : Fault) : Prop :=
  e = .fatal "missing arguments to log()" ∨ e = .fatal "Extra arguments provided to log()"

theorem goes_of_memory {s' : List Char} {args' : List (LogValue F D)} {pushed value' : List (LogElement F D)}
    (hs : NUL ∉ s) (hs' : NUL ∉ s') (hlength : pushed.length ≤ 1)
    (hrest : pushed ++ (value' ++ expand (pieces s') args') = value ++ expand (pieces s) args)
    (hfits : (pieces s').count .slot = args'.length ↔ (pieces s).count .slot = args.length) :
    Goes ⟨s ++ [NUL], args, value⟩ (pushed, some ⟨s' ++ [NUL], args', value'⟩) := by
  refine ⟨hlength, ?_, fun c' hc' ↦ ?_⟩
  · rw [rest_memory hs, ← hrest, callRest, rest_memory hs']
  · obtain rfl := Option.some.inj hc'
    rw [fits_memory hs, fits_memory hs']
    exact ⟨terminated_memory hs', hfits⟩

theorem ends_step_memory (hs : NUL ∉ s) :
    Ends (step ⟨s ++ [NUL], args, value⟩) (Goes ⟨s ++ [NUL], args, value⟩) fun e ↦
      Misfit e ∧ ¬ (⟨s ++ [NUL], args, value⟩ : LogCall F D).Fits := by
  rw [fits_memory hs]
  cases value with
  | cons e value => exact goes_of_memory hs hs le_rfl rfl .rfl
  | nil =>
    fun_cases pieces s with
    | case1 s =>
      have hs' : NUL ∉ s := fun h ↦ hs (.tail _ (.tail _ h))
      refine goes_of_memory hs hs' le_rfl ?_ ?_
      · rw [pieces]
        rfl
      · rw [pieces, List.count_cons_of_ne (by simp)]
    | case2 s hnext =>
      have hs' : NUL ∉ s := fun h ↦ hs (.tail _ h)
      obtain ⟨c, s', hc, hne⟩ := exists_next hnext
      have hpieces : pieces ('%' :: s) = .slot :: pieces s := pieces.eq_2 _ hnext
      cases args with
      | nil =>
        have hstep : step (⟨'%' :: s ++ [NUL], [], []⟩ : LogCall F D) =
            .error (.fatal "missing arguments to log()") := by
          rw [List.cons_append, hc]
          exact if_neg hne
        rw [hstep, List.count_cons_self]
        exact ⟨.inl rfl, Nat.succ_ne_zero _⟩
      | cons value args =>
        have hstep : step (⟨'%' :: s ++ [NUL], value :: args, []⟩ : LogCall F D) =
            .ok ([], some ⟨s ++ [NUL], args, elements value⟩) := by
          rw [List.cons_append, hc]
          exact if_neg hne
        rw [hstep, List.count_cons_self]
        refine goes_of_memory hs hs' (Nat.zero_le _) ?_ ?_
        · rw [hpieces]
          rfl
        · rw [hpieces, List.count_cons_self, List.length_cons, Nat.add_right_cancel_iff]
    | case3 c s hne hp =>
      have hs' : NUL ∉ s := fun h ↦ hs (.tail _ h)
      have hc : c ≠ NUL := fun hc ↦ hs (hc ▸ .head _)
      have hpieces : pieces (c :: s) = .char c :: pieces s := pieces.eq_3 _ _ hne hp
      have hstep : step (⟨c :: s ++ [NUL], args, []⟩ : LogCall F D) =
          .ok ([.CHAR c], some ⟨s ++ [NUL], args, []⟩) := (if_neg hc).trans (if_neg hp)
      rw [hstep]
      refine goes_of_memory hs hs' le_rfl ?_ ?_
      · rw [hpieces]
        rfl
      · rw [hpieces, List.count_cons_of_ne (by simp)]
    | case4 =>
      cases args with
      | nil => exact ⟨Nat.zero_le _, (rest_memory hs).symm, fun _ hc' ↦ by cases hc'⟩
      | cons value args => exact ⟨.inr rfl, (Nat.succ_ne_zero _).symm⟩

theorem ends_step (h : c.Terminated) : Ends c.step (Goes c) fun e ↦ Misfit e ∧ ¬ c.Fits := by
  obtain ⟨format, args, value⟩ := c
  have hs : NUL ∉ (⟨format, args, value⟩ : LogCall F D).chars := fun hmem ↦ by
    simpa using List.mem_takeWhile_imp hmem
  rw [Terminated] at h
  generalize chars ⟨format, args, value⟩ = s at h hs
  subst h
  exact ends_step_memory hs

end LogCall

end Call

namespace LogThreads

open LogCall

variable {F D : Type} {p : Printer F D} {pthreadSelf n k : ℕ} {s s' : LogThreads F D}
  {cs : List (CString × List (LogValue F D))} {xs : List (LogElement F D)} {turns : List LogTurn}

/-- The calls have pushed `xs`, of which `k` elements have been released, and the file shows those and the
one that is printed. -/
structure Logs (p : Printer F D) (n : ℕ) (cs : List (CString × List (LogValue F D))) (xs : List (LogElement F D))
    (k : ℕ) (s : LogThreads F D) : Prop where
  queue : s.queue.Holds n xs k
  room : xs.length ≤ k + n
  le_length : k + s.printed.toNat ≤ xs.length
  file : s.file = p.text (xs.take (k + s.printed.toNat))
  pushed : xs ++ s.rest = cs.flatMap logged
  calls : s.calls ⊆ cs
  call : ∀ c ∈ s.call, c.Terminated ∧ (¬ c.Fits → ∃ o ∈ cs, ¬ CallFits o)

theorem logs_start (p : Printer F D) (n : ℕ) (cs : List (CString × List (LogValue F D))) :
    Logs p n cs [] 0 (start n cs) :=
  ⟨LFQueue.holds_new _ _, Nat.zero_le _, le_rfl, rfl, rfl, List.Subset.refl _, nofun⟩

def behind (s : LogThreads F D) : ℕ := 2 * s.queue.size - s.printed.toNat

namespace Logs

theorem size_add (h : Logs p n cs xs k s) : s.queue.size + k = xs.length := h.queue.numElements

theorem caller (h : Logs p n cs xs k s) (hn' : n < 2 ^ 64) (hroom : s.pushes → s.queue.size < n) :
    Ends s.caller (fun s' ↦ ∃ xs, Logs p n cs xs k s') fun e ↦ Misfit e ∧ ∃ o ∈ cs, ¬ CallFits o := by
  obtain ⟨calls, call, queue, printed, file⟩ := s
  cases call with
  | some c =>
    obtain ⟨hterminated, hmisfit⟩ := h.call c rfl
    have hends := ends_step hterminated
    unfold LogThreads.caller
    dsimp only
    unfold pushes at hroom
    dsimp only at hroom
    cases hstep : c.step with
    | error e => exact ⟨(hends.of_error hstep).1, hmisfit (hends.of_error hstep).2⟩
    | ok r =>
      obtain ⟨pushed, call'⟩ := r
      obtain ⟨hlength, hrest, hnext⟩ := hends.of_ok hstep
      rw [hstep] at hroom
      have hsize := h.size_add
      have hfree : xs.length + pushed.length ≤ k + n := by
        cases pushed with
        | nil => exact h.room
        | cons e pushed =>
          have hlt : queue.size < n := hroom rfl
          have hlength' : (e :: pushed).length ≤ 1 := hlength
          dsimp only at hsize
          omega
      refine ⟨xs ++ pushed, h.queue.writes hn' hfree, ?_, ?_, ?_, ?_, h.calls, fun c' hc' ↦ ?_⟩
      · rwa [List.length_append]
      · rw [List.length_append]
        exact h.le_length.trans (Nat.le_add_right _ _)
      · rw [List.take_append_of_le_length h.le_length]
        exact h.file
      · rw [← h.pushed, rest, rest, callRest, ← hrest, List.append_assoc, List.append_assoc]
      · obtain ⟨hterminated', hfits⟩ := hnext c' hc'
        exact ⟨hterminated', fun hno ↦ hmisfit (hno ∘ hfits.mpr)⟩
  | none =>
    cases calls with
    | nil => exact ⟨xs, h⟩
    | cons o calls =>
      obtain ⟨format, args⟩ := o
      have hrest : (⟨format.memory, args, []⟩ : LogCall F D).rest = logged (format, args) :=
        rest_memory format.unterminated
      refine ⟨xs, h.queue, h.room, h.le_length, h.file, ?_, fun o ho ↦ h.calls (.tail _ ho), fun c hc ↦ ?_⟩
      · rw [← h.pushed, rest, rest]
        dsimp only [callRest]
        rw [hrest]
        rfl
      · obtain rfl := Option.some.inj hc
        refine ⟨terminated_memory format.unterminated, fun hno ↦ ⟨(format, args), h.calls (.head _), ?_⟩⟩
        rwa [CString.memory, fits_memory format.unterminated] at hno

theorem flushQueue (h : Logs p n cs xs k s) (hn : 0 < n) (pthreadSelf : ℕ) :
    ∃ s' k', s.flushQueue p pthreadSelf = .ok s' ∧ Logs p n cs xs k' s' ∧ s'.rest = s.rest ∧
      ((s.queue.size = n → s.printed) → s'.behind = s.behind - 1 ∧ (s'.queue.size = n → s'.printed)) := by
  obtain ⟨calls, call, queue, printed, file⟩ := s
  have hsize := h.size_add
  have hroom := h.room
  dsimp only at hsize
  unfold LogThreads.flushQueue
  dsimp only
  cases printed with
  | true =>
    have hlt : k < xs.length := h.le_length
    obtain ⟨queue', hupdate, hcounts, hstore⟩ := h.queue.updateReadIndex pthreadSelf hlt
    have hqueue : queue'.Holds n xs (k + 1) := ⟨hcounts, hstore ▸ h.queue.slots.mono (Nat.le_succ _)⟩
    have hsize' : queue'.size + (k + 1) = xs.length := hqueue.numElements
    refine ⟨⟨calls, call, queue', false, file⟩, k + 1, ?_, ⟨hqueue, by omega, hlt, h.file, h.pushed, h.calls,
      h.call⟩, rfl, fun _ ↦ ⟨?_, fun hfull ↦ ?_⟩⟩
    · rw [if_pos rfl, hupdate]
      rfl
    · simp only [behind, Bool.toNat_true, Bool.toNat_false]
      omega
    · dsimp only at hfull
      omega
  | false =>
    rw [if_neg (by decide)]
    cases hnext : queue.getNextToRead with
    | none =>
      refine ⟨_, k, rfl, h, rfl, fun hfull ↦ ?_⟩
      have hempty : queue.size = 0 := by
        rcases (h.queue.getNextToRead_eq_none_iff hn h.room).mp hnext with hempty | hfull'
        · omega
        · have hsize' : queue.size = n := by omega
          cases hfull hsize'
      refine ⟨?_, hfull⟩
      simp only [behind, hempty]
      rfl
    | some slot =>
      obtain ⟨rfl, hlt, -⟩ := h.queue.eq_of_getNextToRead hnext
      have hpos : queue.size ≠ 0 := by omega
      refine ⟨⟨calls, call, queue, true, file ++ p.put xs[k]⟩, k, ?_, ⟨h.queue, h.room, hlt, ?_, h.pushed, h.calls,
        h.call⟩, rfl, fun hfull ↦ ⟨rfl, fun _ ↦ rfl⟩⟩
      · dsimp only
        rw [if_neg hpos, LFQueue.element_of_slot (h.queue.slot hlt)]
        rfl
      · have hfile : file = p.text (xs.take k) := h.file
        change file ++ p.put xs[k] = p.text (xs.take (k + 1))
        rw [hfile, ← List.take_concat_get' xs k hlt, Printer.text_append]
        exact congrArg _ (List.append_nil _).symm

theorem catches_up (h : Logs p n cs xs k s) (hn : 0 < n) (pthreadSelf : ℕ) (hfull : s.queue.size = n → s.printed)
    {t : ℕ} (ht : s.behind ≤ t) :
    ∃ s' k', (List.replicate t .logger).foldlM (step p pthreadSelf) s = .ok s' ∧ Logs p n cs xs k' s' ∧
      s'.rest = s.rest ∧ s'.behind = 0 := by
  induction t generalizing s k with
  | zero => exact ⟨s, k, rfl, h, rfl, Nat.eq_zero_of_le_zero ht⟩
  | succ t ih =>
    obtain ⟨s₁, k₁, hstep, h₁, hrest₁, hnext⟩ := h.flushQueue hn pthreadSelf
    obtain ⟨hbehind, hfull₁⟩ := hnext hfull
    obtain ⟨s', k', hrun, h', hrest', hzero⟩ := ih h₁ hfull₁ (by omega)
    refine ⟨s', k', ?_, h', hrest'.trans hrest₁, hzero⟩
    rw [List.replicate_succ, List.foldlM_cons, step, hstep]
    exact hrun

theorem unread_eq (h : Logs p n cs xs k s) : s.unread = xs.drop (k + s.printed.toNat) := by
  rw [unread, h.queue.unread_eq_drop, List.drop_drop]

theorem file_append (h : Logs p n cs xs k s) :
    s.file ++ p.text (s.unread ++ s.rest) = p.text (cs.flatMap logged) := by
  rw [h.file, ← h.pushed, h.unread_eq, ← Printer.text_append, ← List.append_assoc, List.take_append_drop]

theorem length_unread (h : Logs p n cs xs k s) : s.unread.length + s.printed.toNat = s.queue.size := by
  have hsize := h.size_add
  have hle := h.le_length
  rw [h.unread_eq, List.length_drop]
  omega

end Logs

theorem exists_logs (hn : 0 < n) (hn' : n < 2 ^ 64)
    (hroom : Guarded (step p pthreadSelf) (HasRoom n) (start n cs) turns) :
    Ends (turns.foldlM (step p pthreadSelf) (start n cs)) (fun s ↦ ∃ xs k, Logs p n cs xs k s)
      (fun e ↦ Misfit e ∧ ∃ o ∈ cs, ¬ CallFits o) := by
  refine hroom.ends ?_ ⟨[], 0, logs_start p n cs⟩
  rintro s turn ⟨xs, k, h⟩ hturn
  cases turn with
  | caller => exact (h.caller hn' (hturn rfl)).imp fun s' ⟨xs, h'⟩ ↦ ⟨xs, k, h'⟩
  | logger =>
    obtain ⟨s', k', hstep, h', -⟩ := h.flushQueue hn pthreadSelf
    rw [step, hstep]
    exact ⟨xs, k', h'⟩

/-- Whatever turns the threads take, the file shows the calls as far as they have been read: what follows is
in the queue, and then what the calls have yet to push. Only a call whose arguments do not fit its format
breaks off. -/
theorem file_follows (hn : 0 < n) (hn' : n < 2 ^ 64)
    (hroom : Guarded (step p pthreadSelf) (HasRoom n) (start n cs) turns) :
    Ends (turns.foldlM (step p pthreadSelf) (start n cs))
      (fun s ↦ s.file ++ p.text (s.unread ++ s.rest) = p.text (cs.flatMap logged) ∧
        s.unread.length + s.printed.toNat = s.queue.size)
      (fun e ↦ Misfit e ∧ ∃ o ∈ cs, ¬ CallFits o) :=
  (exists_logs hn hn' hroom).imp fun _ ⟨_, _, h⟩ ↦ ⟨h.file_append, h.length_unread⟩

/-- What the calls push is what `log` writes. -/
theorem log_eq_logged {o : CString × List (LogValue F D)} (q : LFQueue (LogElement F D)) (ho : CallFits o) :
    Logger.log q o.2 o.1.memory = .ok (q.writes (logged o)) :=
  (Logger.log_memory o.1.unterminated).trans (if_pos ho)

def percentCall : CString × List (LogValue Empty Empty) :=
  (⟨['%', '%', ':', '%'], by decide⟩, [.element (.INTEGER 5)])

def noFloats : Printer Empty Empty := ⟨nofun, nofun⟩

def inTurns : List LogTurn :=
  [.caller, .caller, .logger, .caller, .caller, .logger, .logger, .caller, .caller, .logger]

theorem file_follows_percent : Ends (inTurns.foldlM (step noFloats 1) (start 2 [percentCall]))
    (fun s ↦ s.file ++ noFloats.text (s.unread ++ s.rest) = "%:5".toList ∧
      s.unread.length + s.printed.toNat = s.queue.size)
    (fun e ↦ Misfit e ∧ ∃ o ∈ [percentCall], ¬ CallFits o) :=
  file_follows (by decide) (by decide) (by decide)

theorem replicate_full (h : s.queue.getNextToRead = none) (hprinted : s.printed = false) (t : ℕ) :
    (List.replicate t .logger).foldlM (step p pthreadSelf) s = .ok s := by
  have hstep : step p pthreadSelf s .logger = .ok s := by
    rw [step, flushQueue, hprinted, h]
    rfl
  induction t with
  | zero => rfl
  | succ t ih =>
    rw [List.replicate_succ, List.foldlM_cons, hstep]
    exact ih

/-- Left to itself, the logger thread brings all that has been pushed to the file, within two turns for each
element, exactly if it does not find the queue full. -/
theorem catches_up_iff (hn : 0 < n) (hn' : n < 2 ^ 64)
    (hroom : Guarded (step p pthreadSelf) (HasRoom n) (start n cs) turns)
    (hrun : turns.foldlM (step p pthreadSelf) (start n cs) = .ok s) :
    (∃ s', (List.replicate (2 * s.queue.size) .logger).foldlM (step p pthreadSelf) s = .ok s' ∧
      s'.queue.size = 0 ∧ s'.file ++ p.text s.rest = p.text (cs.flatMap logged)) ↔
    (s.queue.size = n → s.printed) := by
  obtain ⟨xs, k, h⟩ := (exists_logs hn hn' hroom).of_ok hrun
  constructor
  · rintro ⟨s', hs', hempty, -⟩ hfull
    by_contra hprinted
    have hsize := h.size_add
    have hnone : s.queue.getNextToRead = none :=
      (h.queue.getNextToRead_eq_none_iff hn h.room).mpr (.inr (by omega))
    rw [replicate_full hnone (eq_false_of_ne_true hprinted)] at hs'
    obtain rfl := Except.ok.inj hs'
    omega
  · intro hfull
    obtain ⟨s', k', hs', h', hrest, hbehind⟩ := h.catches_up hn pthreadSelf hfull (Nat.sub_le _ _)
    have hempty : s'.queue.size = 0 := by
      have hle := h'.le_length
      have hsize := h'.size_add
      have htoNat := Bool.toNat_le s'.printed
      unfold behind at hbehind
      omega
    refine ⟨s', hs', hempty, ?_⟩
    have hread : s'.unread = [] := by
      have hlength := h'.length_unread
      exact List.eq_nil_of_length_eq_zero (by omega)
    have hfile := h'.file_append
    rwa [hread, List.nil_append, hrest] at hfile

theorem catches_up_percent : ∃ s s' : LogThreads Empty Empty,
    (inTurns.take 6).foldlM (step noFloats 1) (start 2 [percentCall]) = .ok s ∧
      (List.replicate (2 * s.queue.size) .logger).foldlM (step noFloats 1) s = .ok s' ∧
      s'.queue.size = 0 := by
  obtain ⟨s, hrun, hsize⟩ : ∃ s, (inTurns.take 6).foldlM (step noFloats 1) (start 2 [percentCall]) = .ok s ∧
      s.queue.size = 1 := ⟨_, rfl, rfl⟩
  obtain ⟨s', hs', hempty, -⟩ := (catches_up_iff (by decide) (by decide) (by decide) hrun).mpr fun hfull ↦
    absurd (hsize.symm.trans hfull) (by decide)
  exact ⟨s, s', hrun, hs', hempty⟩

end LogThreads

end LowLatency.Common
