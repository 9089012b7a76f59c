import LowLatency.Packed

namespace LowLatency

section Frames

variable {α : Type} {size : ℕ} {frame bytes : List α}

def frames (size : ℕ) (bytes : List α) : List (List α) :=
  (List.range (bytes.length / size)).map fun k ↦ (bytes.drop (k * size)).take size

def leftover (size : ℕ) (bytes : List α) : List α := bytes.drop (bytes.length / size * size)

theorem frames_of_lt (h : bytes.length < size) : frames size bytes = [] := by
  rw [frames, Nat.div_eq_of_lt h, List.range_zero, List.map_nil]

theorem leftover_of_lt (h : bytes.length < size) : leftover size bytes = bytes := by
  rw [leftover, Nat.div_eq_of_lt h, Nat.zero_mul, List.drop_zero]

theorem length_leftover_lt (hpos : 0 < size) : (leftover size bytes).length < size := by
  rw [leftover, List.length_drop]
  have hmod := Nat.mod_lt bytes.length hpos
  have hdiv := Nat.div_add_mod' bytes.length size
  omega

theorem length_append_div (hpos : 0 < size) (h : frame.length = size) :
    (frame ++ bytes).length / size = bytes.length / size + 1 := by
  rw [List.length_append, h, Nat.add_div_left _ hpos]

theorem drop_succ_frames (h : frame.length = size) (k : ℕ) :
    (frame ++ bytes).drop ((k + 1) * size) = bytes.drop (k * size) := by
  rw [Nat.add_mul, Nat.one_mul, Nat.add_comm, ← List.drop_drop, List.drop_left' h]

theorem frames_append (hpos : 0 < size) (h : frame.length = size) :
    frames size (frame ++ bytes) = frame :: frames size bytes := by
  rw [frames, length_append_div hpos h, List.range_succ_eq_map, List.map_cons, List.map_map,
    Nat.zero_mul, List.drop_zero, List.take_left' h]
  congr 1
  apply List.map_congr_left
  intro k _
  rw [Function.comp_apply, Nat.succ_eq_add_one, drop_succ_frames h]

theorem leftover_append (hpos : 0 < size) (h : frame.length = size) :
    leftover size (frame ++ bytes) = leftover size bytes := by
  rw [leftover, length_append_div hpos h, drop_succ_frames h, leftover]

theorem frames_flatten (hpos : 0 < size) {fs : List (List α)} (h : ∀ f ∈ fs, f.length = size) :
    frames size fs.flatten = fs := by
  induction fs with
  | nil => exact frames_of_lt hpos
  | cons f fs ih =>
    rw [List.flatten_cons, frames_append hpos (h f List.mem_cons_self),
      ih fun f' hf' ↦ h f' (List.mem_cons_of_mem f hf')]

/-- A buffer that is cut into its frames as more comes in is cut as if all had come at once. -/
theorem frames_more (hpos : 0 < size) (bytes more : List α) :
    frames size (bytes ++ more) = frames size bytes ++ frames size (leftover size bytes ++ more) ∧
      leftover size (bytes ++ more) = leftover size (leftover size bytes ++ more) := by
  induction hlen : bytes.length using Nat.strongRecOn generalizing bytes with
  | _ n ih =>
    by_cases hlt : bytes.length < size
    · rw [frames_of_lt hlt, leftover_of_lt hlt]
      exact ⟨rfl, rfl⟩
    · obtain ⟨frame, rest, rfl, hframe⟩ : ∃ frame rest, bytes = frame ++ rest ∧ frame.length = size :=
        ⟨bytes.take size, bytes.drop size, (List.take_append_drop size bytes).symm,
          List.length_take_of_le (not_lt.mp hlt)⟩
      have hrest : rest.length < n := by
        rw [← hlen, List.length_append]
        omega
      obtain ⟨hframes, hleft⟩ := ih rest.length hrest rest rfl
      rw [List.append_assoc, frames_append hpos hframe, frames_append hpos hframe,
        leftover_append hpos hframe, leftover_append hpos hframe, hframes]
      exact ⟨rfl, hleft⟩

end Frames

namespace Packed

variable {M α : Type} (P : Packed M) {ms : List M} {bytes rest : List UInt8}

def stream (ms : List M) : List UInt8 := ms.flatMap P.encode

def messages (bytes : List UInt8) : List M := (frames P.size bytes).map P.decode

theorem stream_append (ms ms' : List M) : P.stream (ms ++ ms') = P.stream ms ++ P.stream ms' :=
  List.flatMap_append

theorem stream_flatten (mss : List (List M)) : (mss.map P.stream).flatten = P.stream mss.flatten := by
  induction mss with
  | nil => rfl
  | cons ms mss ih => rw [List.map_cons, List.flatten_cons, ih, List.flatten_cons, stream_append]

theorem length_stream : (P.stream ms).length = ms.length * P.size := by
  rw [stream, List.length_flatMap, List.map_congr_left fun m _ ↦ P.length_encode m, List.map_const',
    List.sum_replicate, smul_eq_mul]

theorem messages_stream (hpos : 0 < P.size) (hfits : ∀ m ∈ ms, P.Fits m) : P.messages (P.stream ms) = ms := by
  rw [messages, stream, List.flatMap, frames_flatten hpos, List.map_map]
  · exact (List.map_congr_left fun m hm ↦ P.decode_encode m (hfits m hm)).trans ms.map_id
  · intro f hf
    obtain ⟨m, -, rfl⟩ := List.mem_map.mp hf
    exact P.length_encode m

theorem leftover_stream (hpos : 0 < P.size) (ms : List M) : leftover P.size (P.stream ms) = [] := by
  induction ms with
  | nil => exact leftover_of_lt hpos
  | cons m ms ih =>
    rw [stream, List.flatMap_cons, leftover_append hpos (P.length_encode m)]
    exact ih

theorem messages_more (hpos : 0 < P.size) (bytes more : List UInt8) :
    P.messages (bytes ++ more) = P.messages bytes ++ P.messages (leftover P.size bytes ++ more) := by
  rw [messages, (frames_more hpos bytes more).1, List.map_append, messages, messages]

theorem messages_of_stream (hpos : 0 < P.size) (hfits : ∀ m ∈ ms, P.Fits m)
    (h : bytes ++ rest = P.stream ms) :
    ∃ later, ms = P.messages bytes ++ later ∧ leftover P.size bytes ++ rest = P.stream later := by
  induction ms generalizing bytes with
  | nil =>
    obtain ⟨rfl, rfl⟩ := List.append_eq_nil_iff.mp h
    rw [messages, frames_of_lt hpos, leftover_of_lt hpos]
    exact ⟨[], rfl, rfl⟩
  | cons m ms ih =>
    by_cases hlt : bytes.length < P.size
    · rw [messages, frames_of_lt hlt, leftover_of_lt hlt]
      exact ⟨m :: ms, rfl, h⟩
    · have hlen := P.length_encode m
      rw [stream, List.flatMap_cons] at h
      obtain ⟨bytes', rfl, h'⟩ : ∃ bytes', bytes = P.encode m ++ bytes' ∧
          bytes' ++ rest = P.stream ms := by
        refine ⟨bytes.drop P.size, ?_, ?_⟩
        · have htake := congrArg (List.take P.size) h
          rw [List.take_append_of_le_length (by omega), List.take_left' hlen] at htake
          rw [← htake, List.take_append_drop]
        · have hdrop := congrArg (List.drop P.size) h
          rwa [List.drop_append_of_le_length (by omega), List.drop_left' hlen] at hdrop
      obtain ⟨later, hms, hrest⟩ := ih (fun m' hm' ↦ hfits m' (List.mem_cons_of_mem m hm')) h'
      refine ⟨later, ?_, ?_⟩
      · rw [messages, frames_append hpos hlen, List.map_cons,
          P.decode_encode m (hfits m List.mem_cons_self), List.cons_append]
        exact congrArg _ hms
      · rw [leftover_append hpos hlen]
        exact hrest

end Packed

section Numbered

variable {M α : Type} {mk : ℕ → α → M} {k : ℕ} {as sent arrived : List α} {a : α}

/-- Messages that are numbered from `k` on, by a counter of 64 bits. -/
def numberFrom (mk : ℕ → α → M) : ℕ → List α → List M
  | _, [] => []
  | k, a :: as => mk (k % 2 ^ 64) a :: numberFrom mk (k + 1) as

theorem length_numberFrom : (numberFrom mk k as).length = as.length := by
  induction as generalizing k with
  | nil => rfl
  | cons a as ih => rw [numberFrom, List.length_cons, List.length_cons, ih]

theorem map_numberFrom {N : Type} (f : M → N) :
    (numberFrom mk k as).map f = numberFrom (fun n a ↦ f (mk n a)) k as := by
  induction as generalizing k with
  | nil => rfl
  | cons a as ih => rw [numberFrom, List.map_cons, ih, numberFrom]

theorem numberFrom_map {β : Type} (f : β → α) (bs : List β) :
    numberFrom mk k (bs.map f) = numberFrom (fun n b ↦ mk n (f b)) k bs := by
  induction bs generalizing k with
  | nil => rfl
  | cons b bs ih => rw [List.map_cons, numberFrom, ih, numberFrom]

theorem numberFrom_congr {mk' : ℕ → α → M} (h : ∀ n < 2 ^ 64, ∀ a, mk n a = mk' n a) :
    numberFrom mk k as = numberFrom mk' k as := by
  induction as generalizing k with
  | nil => rfl
  | cons a as ih => rw [numberFrom, h _ (Nat.mod_lt k (by decide)), ih, numberFrom]

theorem numberFrom_concat :
    numberFrom mk k (as ++ [a]) = numberFrom mk k as ++ [mk ((k + as.length) % 2 ^ 64) a] := by
  induction as generalizing k with
  | nil => rfl
  | cons a' as ih =>
    rw [List.cons_append, numberFrom, ih, numberFrom, List.cons_append, List.length_cons,
      Nat.add_right_comm, Nat.add_assoc]

theorem numberFrom_mono {as' : List α} (h : as <+: as') :
    numberFrom mk k as <+: numberFrom mk k as' := by
  obtain ⟨more, rfl⟩ := h
  induction as generalizing k with
  | nil => exact List.nil_prefix
  | cons a as ih => exact (List.prefix_cons_inj _).mpr ih

theorem exists_of_mem_numberFrom {m : M} (h : m ∈ numberFrom mk k as) :
    ∃ n < 2 ^ 64, ∃ a ∈ as, m = mk n a := by
  induction as generalizing k with
  | nil => cases h
  | cons a as ih =>
    rcases List.mem_cons.mp h with rfl | h
    · exact ⟨_, Nat.mod_lt k (by decide), a, List.mem_cons_self, rfl⟩
    · obtain ⟨n, hn, a', ha', rfl⟩ := ih h
      exact ⟨n, hn, a', List.mem_cons_of_mem a ha', rfl⟩

theorem numberFrom_split {ms later : List M} (h : numberFrom mk k as = ms ++ later) :
    ∃ as₁ as₂, as = as₁ ++ as₂ ∧ ms = numberFrom mk k as₁ ∧
      later = numberFrom mk (k + as₁.length) as₂ := by
  induction ms generalizing k as with
  | nil => exact ⟨[], as, rfl, rfl, h.symm⟩
  | cons m ms ih =>
    cases as with
    | nil => cases h
    | cons a as =>
      obtain ⟨rfl, htail⟩ := List.cons.inj h
      obtain ⟨as₁, as₂, rfl, rfl, rfl⟩ := ih htail
      refine ⟨a :: as₁, as₂, rfl, rfl, ?_⟩
      rw [List.length_cons, Nat.add_right_comm, Nat.add_assoc]

/-- Of the messages `sent`, numbered from one on, those in `arrived` are through. The receiver
holds a part of the next one, which is not complete, and the remaining bytes are under way. -/
structure Carries (P : Packed M) (mk : ℕ → α → M) (sent arrived : List α)
    (held underway : List UInt8) : Prop where
  bytes : ∃ later, sent = arrived ++ later ∧
    held ++ underway = P.stream (numberFrom mk (arrived.length + 1) later)
  short : held.length < P.size

namespace Carries

variable {P : Packed M} {held underway chunk rest : List UInt8}

theorem start (hpos : 0 < P.size) : Carries P mk [] [] [] [] := ⟨⟨[], rfl, rfl⟩, hpos⟩

theorem send (h : Carries P mk sent arrived held underway) (a : α) :
    Carries P mk (sent ++ [a]) arrived held
      (underway ++ P.encode (mk ((sent.length + 1) % 2 ^ 64) a)) := by
  obtain ⟨later, rfl, hbytes⟩ := h.bytes
  refine ⟨⟨later ++ [a], List.append_assoc .., ?_⟩, h.short⟩
  have hnum : arrived.length + 1 + later.length = (arrived ++ later).length + 1 := by
    rw [List.length_append]
    omega
  rw [← List.append_assoc, hbytes, numberFrom_concat, P.stream_append, hnum]
  congr 1
  exact (List.append_nil _).symm

theorem receive (hfits : ∀ a ∈ sent, ∀ n < 2 ^ 64, P.Fits (mk n a))
    (h : Carries P mk sent arrived held (chunk ++ rest)) :
    ∃ more, P.messages (held ++ chunk) = numberFrom mk (arrived.length + 1) more ∧
      more ⊆ sent ∧
      Carries P mk sent (arrived ++ more) (leftover P.size (held ++ chunk)) rest := by
  obtain ⟨later, rfl, hbytes⟩ := h.bytes
  have hpos : 0 < P.size := h.short.pos
  have hmfits : ∀ m ∈ numberFrom mk (arrived.length + 1) later, P.Fits m := by
    intro m hm
    obtain ⟨n, hn, a, ha, rfl⟩ := exists_of_mem_numberFrom hm
    exact hfits a (List.mem_append_right arrived ha) n hn
  rw [← List.append_assoc] at hbytes
  obtain ⟨after, hms, hleft⟩ := P.messages_of_stream hpos hmfits hbytes
  obtain ⟨more, later', rfl, hmore, rfl⟩ := numberFrom_split hms
  refine ⟨more, hmore, fun a ha ↦ ?_, ⟨later', (List.append_assoc ..).symm, ?_⟩,
    length_leftover_lt hpos⟩
  · exact List.mem_append_right arrived (List.mem_append_left later' ha)
  · rw [hleft, List.length_append, Nat.add_right_comm]

theorem complete (h : Carries P mk sent arrived held []) : arrived = sent ∧ held = [] := by
  obtain ⟨later, rfl, hbytes⟩ := h.bytes
  have hshort := h.short
  rw [List.append_nil] at hbytes
  cases later with
  | nil => exact ⟨(List.append_nil _).symm, hbytes⟩
  | cons a later =>
    rw [hbytes, numberFrom, Packed.stream, List.flatMap_cons, List.length_append,
      P.length_encode] at hshort
    omega

end Carries

end Numbered

end LowLatency
