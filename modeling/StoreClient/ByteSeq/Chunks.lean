import StoreClient.ByteSeq.Basic

/-! # Chunks

The chunks of a sequence are its contiguous runs in order.  `Chunks` is a list of frames still to
visit, so that the depth of a sequence is never the depth of a call: `next?` opens frames until
one shows a run.  Every run is non-empty and no longer than the frame that it comes from
(`next?_eq_some`), whatever the buffers answer, so each traversal ends; `foldUntil` is the
traversal, and may stop early. -/

namespace StoreClient

/-- The number of nodes of a sequence. -/
def ByteSeq.nodes : ByteSeq → Nat
  | .concat head tail _ => head.nodes + tail.nodes + 1
  | .slice inner _ _ => inner.nodes + 1
  | _ => 1

/-- A range of a sequence that is still to be visited. -/
structure Frame where
  seq : ByteSeq
  start : Nat
  stop : Nat

/-- What a frame shows: a run of bytes and the frames after it, or just narrower frames. -/
inductive Frame.View where
  | run (chunk : Bytes) (rest : List Frame)
  | parts (frames : List Frame)

namespace Frame

def width (f : Frame) : Nat := f.stop - f.start

/-- A run, unless it is empty: then the frame shows nothing more. -/
def View.ofRun (chunk : Bytes) (rest : List Frame) : View :=
  if chunk.isEmpty then .parts [] else .run chunk rest

def view (f : Frame) : View :=
  if f.stop ≤ f.start then .parts []
  else match f.seq with
    | .empty => .parts []
    | .array bs => .ofRun (bs.window f.start f.stop) []
    | .text t => .ofRun (t.bytes.window f.start f.stop) []
    | .buffer v =>
      let chunk := (v.buffer.chunkAt (v.offset + f.start)).take f.width
      .ofRun chunk <|
        if f.start + chunk.length < f.stop then [⟨f.seq, f.start + chunk.length, f.stop⟩] else []
    | .slice inner offset _ => .parts [⟨inner, offset + f.start, offset + f.stop⟩]
    | .concat head tail _ =>
      let split := head.length
      .parts <|
        (if f.start < split then [⟨head, f.start, min f.stop split⟩] else []) ++
          if split < f.stop then [⟨tail, max f.start split - split, f.stop - split⟩] else []

end Frame

/-- The frames still to visit, nearest first. -/
abbrev Chunks := List Frame

namespace Chunks

-- sums begin with the numeral, also where another zero of `Nat` is in scope
attribute [local instance (2000)] Zero.ofOfNat0

/-- The bytes that the frames still promise. -/
def width (ch : Chunks) : Nat := (ch.map Frame.width).sum

def nodes (ch : Chunks) : Nat := (ch.map (·.seq.nodes)).sum

@[simp] theorem width_nil : width [] = 0 := rfl
@[simp] theorem width_cons (f : Frame) (ch : Chunks) : width (f :: ch) = f.width + width ch :=
  List.sum_cons
@[simp] theorem width_append (a b : Chunks) : width (a ++ b) = width a + width b := by
  simp only [width, List.map_append, List.sum_append]

@[simp] theorem nodes_nil : nodes [] = 0 := rfl
@[simp] theorem nodes_cons (f : Frame) (ch : Chunks) :
    nodes (f :: ch) = f.seq.nodes + nodes ch := List.sum_cons
@[simp] theorem nodes_append (a b : Chunks) : nodes (a ++ b) = nodes a + nodes b := by
  simp only [nodes, List.map_append, List.sum_append]

end Chunks

theorem ByteSeq.nodes_pos (s : ByteSeq) : 0 < s.nodes := by
  cases s <;> simp [ByteSeq.nodes]

namespace Frame

theorem View.ofRun_eq_run {chunk c : Bytes} {rest r : List Frame}
    (h : View.ofRun chunk rest = .run c r) : c = chunk ∧ r = rest ∧ c ≠ [] := by
  unfold View.ofRun at h
  split at h
  · simp at h
  · next hc =>
    simp only [View.run.injEq] at h
    obtain ⟨rfl, rfl⟩ := h
    exact ⟨rfl, rfl, by simpa using hc⟩

theorem View.ofRun_eq_parts {chunk : Bytes} {rest ps : List Frame}
    (h : View.ofRun chunk rest = .parts ps) : ps = [] := by
  unfold View.ofRun at h
  split at h
  · exact (View.parts.inj h).symm
  · simp at h

/-- Opening a frame leaves fewer nodes. -/
theorem nodes_of_view_eq_parts {f : Frame} {ps : List Frame} (h : f.view = .parts ps) :
    Chunks.nodes ps < f.seq.nodes := by
  have hp := f.seq.nodes_pos
  unfold view at h
  split at h
  · obtain rfl := (View.parts.inj h).symm
    simpa using hp
  · split at h
    · obtain rfl := (View.parts.inj h).symm
      simpa using hp
    · simpa [View.ofRun_eq_parts h] using hp
    · simpa [View.ofRun_eq_parts h] using hp
    · simpa [View.ofRun_eq_parts h] using hp
    · next hs =>
      obtain rfl := (View.parts.inj h).symm
      simp [hs, ByteSeq.nodes]
    · next head tail n hs =>
      obtain rfl := (View.parts.inj h).symm
      simp only [hs, ByteSeq.nodes, Chunks.nodes_append]
      split <;> split <;> simp only [Chunks.nodes_cons, Chunks.nodes_nil] <;> omega

/-- The frames inside a frame promise no more than it does. -/
theorem width_of_view_eq_parts {f : Frame} {ps : List Frame} (h : f.view = .parts ps) :
    Chunks.width ps ≤ f.width := by
  unfold view at h
  split at h
  · obtain rfl := (View.parts.inj h).symm
    simp
  · split at h
    · obtain rfl := (View.parts.inj h).symm
      simp
    · simp [View.ofRun_eq_parts h]
    · simp [View.ofRun_eq_parts h]
    · simp [View.ofRun_eq_parts h]
    · obtain rfl := (View.parts.inj h).symm
      simp only [Chunks.width_cons, Chunks.width_nil, width]
      omega
    · obtain rfl := (View.parts.inj h).symm
      simp only [Chunks.width_append, width]
      split <;> split <;> simp only [Chunks.width_cons, Chunks.width_nil, width] <;> omega

/-- A run is not empty, and with what follows it fits into the frame. -/
theorem width_of_view_eq_run {f : Frame} {c : Bytes} {r : List Frame} (h : f.view = .run c r) :
    c ≠ [] ∧ c.length + Chunks.width r ≤ f.width := by
  unfold view at h
  split at h
  · simp at h
  · split at h
    · simp at h
    · obtain ⟨rfl, rfl, hc⟩ := View.ofRun_eq_run h
      refine ⟨hc, ?_⟩
      simp only [Bytes.length_window, Chunks.width_nil, width]
      omega
    · obtain ⟨rfl, rfl, hc⟩ := View.ofRun_eq_run h
      refine ⟨hc, ?_⟩
      simp only [Bytes.length_window, Chunks.width_nil, width]
      omega
    · obtain ⟨rfl, rfl, hc⟩ := View.ofRun_eq_run h
      refine ⟨hc, ?_⟩
      simp only [List.length_take]
      split <;> simp only [Chunks.width_cons, Chunks.width_nil, width] <;> omega
    · simp at h
    · simp at h

end Frame

namespace Chunks

/-- The next run, and the frames after it. -/
def next? : Chunks → Option (Bytes × Chunks)
  | [] => none
  | f :: fs =>
    match _h : f.view with
    | .run chunk rest => some (chunk, rest ++ fs)
    | .parts ps => next? (ps ++ fs)
termination_by ch => nodes ch
decreasing_by
  have := Frame.nodes_of_view_eq_parts _h
  simp only [nodes_append, nodes_cons]
  omega

theorem next?_of_run {f : Frame} {chunk : Bytes} {rest : List Frame} (hv : f.view = .run chunk rest)
    (fs : Chunks) : next? (f :: fs) = some (chunk, rest ++ fs) := by
  rw [next?]
  split
  · next chunk' rest' hv' =>
    rw [hv] at hv'
    obtain ⟨rfl, rfl⟩ := Frame.View.run.inj hv'
    rfl
  · next ps hv' =>
    rw [hv] at hv'
    exact nomatch hv'

theorem next?_of_parts {f : Frame} {ps : List Frame} (hv : f.view = .parts ps) (fs : Chunks) :
    next? (f :: fs) = next? (ps ++ fs) := by
  rw [next?]
  split
  · next chunk rest hv' =>
    rw [hv] at hv'
    exact nomatch hv'
  · next ps' hv' =>
    rw [hv] at hv'
    obtain rfl := Frame.View.parts.inj hv'
    rfl

/-- A run is not empty, and what is left promises less by its length. -/
theorem next?_eq_some {ch : Chunks} {c : Bytes} {r : Chunks} (h : ch.next? = some (c, r)) :
    c ≠ [] ∧ c.length + r.width ≤ ch.width := by
  fun_induction next? ch with
  | case1 => simp at h
  | case2 f fs chunk rest hv =>
    simp only [Option.some.injEq, Prod.mk.injEq] at h
    obtain ⟨rfl, rfl⟩ := h
    obtain ⟨hc, hw⟩ := Frame.width_of_view_eq_run hv
    refine ⟨hc, ?_⟩
    simp only [width_append, width_cons]
    omega
  | case3 f fs ps hv ih =>
    obtain ⟨hc, hw⟩ := ih h
    have := Frame.width_of_view_eq_parts hv
    refine ⟨hc, ?_⟩
    simp only [width_append, width_cons] at hw ⊢
    omega

theorem width_lt_of_next?_eq_some {ch : Chunks} {c : Bytes} {r : Chunks}
    (h : ch.next? = some (c, r)) : r.width < ch.width := by
  obtain ⟨hc, hw⟩ := next?_eq_some h
  have := List.length_pos_iff.mpr hc
  omega

/-- Feeds the runs in order to `f`, until there are no more or `f` stops. -/
def foldUntil {ε β : Type} (f : β → Bytes → Except ε β) (b : β) (ch : Chunks) : Except ε β :=
  match _h : ch.next? with
  | none => .ok b
  | some (c, rest) =>
    match f b c with
    | .ok b' => foldUntil f b' rest
    | .error e => .error e
termination_by ch.width
decreasing_by exact width_lt_of_next?_eq_some _h

/-- Feeds all the runs in order to `f`. -/
def foldl {β : Type} (f : β → Bytes → β) (b : β) (ch : Chunks) : β :=
  match _h : ch.next? with
  | none => b
  | some (c, rest) => foldl f (f b c) rest
termination_by ch.width
decreasing_by exact width_lt_of_next?_eq_some _h

/-- Puts up to `n` runs in front of `acc`, the latest first. -/
def pushRuns : (n : Nat) → Chunks → List Bytes → List Bytes
  | 0, _, acc => acc
  | n + 1, ch, acc =>
    match ch.next? with
    | none => acc
    | some (c, rest) => pushRuns n rest (c :: acc)

/-- The first `n` runs.  Nothing is looked for behind the last of them. -/
def takeRuns (ch : Chunks) (n : Nat) : List Bytes := (ch.pushRuns n []).reverse

/-- The runs in order. -/
def toList (ch : Chunks) : List Bytes := (ch.foldl (fun acc c => c :: acc) []).reverse

/-- The bytes of all the runs. -/
def bytes (ch : Chunks) : Bytes := (ch.foldl (fun acc c => c.reverseAux acc) []).reverse

theorem foldl_of_none {β : Type} {f : β → Bytes → β} {b : β} {ch : Chunks}
    (h : ch.next? = none) : ch.foldl f b = b := by
  rw [foldl]
  split
  · rfl
  · next h' => simp [h] at h'

theorem foldl_of_some {β : Type} {f : β → Bytes → β} {b : β} {ch r : Chunks} {c : Bytes}
    (h : ch.next? = some (c, r)) : ch.foldl f b = r.foldl f (f b c) := by
  rw [foldl]
  split
  · next h' => simp [h] at h'
  · next h' =>
    rw [h] at h'
    simp only [Option.some.injEq, Prod.mk.injEq] at h'
    obtain ⟨rfl, rfl⟩ := h'
    rfl

/-- Traversals end: induction along the runs that are left. -/
theorem induction {motive : Chunks → Prop} (none : ∀ ch, ch.next? = none → motive ch)
    (some : ∀ ch c r, ch.next? = some (c, r) → motive r → motive ch) (ch : Chunks) :
    motive ch := by
  induction hw : ch.width using Nat.strongRecOn generalizing ch with
  | ind n ih =>
    cases h : ch.next? with
    | none => exact none ch h
    | some p =>
      exact some ch p.1 p.2 h (ih _ (hw ▸ width_lt_of_next?_eq_some h) _ rfl)

theorem foldl_cons_append (acc : List Bytes) (ch : Chunks) :
    ch.foldl (fun acc c => c :: acc) acc = ch.foldl (fun acc c => c :: acc) [] ++ acc := by
  induction ch using induction generalizing acc with
  | none ch h => simp [foldl_of_none h]
  | some ch c r h ih =>
    rw [foldl_of_some h, foldl_of_some h, ih (c :: acc), ih [c]]
    simp

theorem toList_of_none {ch : Chunks} (h : ch.next? = none) : ch.toList = [] := by
  simp [toList, foldl_of_none h]

theorem toList_of_some {ch r : Chunks} {c : Bytes} (h : ch.next? = some (c, r)) :
    ch.toList = c :: r.toList := by
  simp [toList, foldl_of_some h, foldl_cons_append [c]]

theorem pushRuns_eq (n : Nat) (ch : Chunks) (acc : List Bytes) :
    pushRuns n ch acc = (ch.toList.take n).reverse ++ acc := by
  induction n generalizing ch acc with
  | zero => simp [pushRuns]
  | succ n ih =>
    cases h : ch.next? with
    | none => simp [pushRuns, h, toList_of_none h]
    | some p => simp [pushRuns, h, toList_of_some h, ih]

theorem takeRuns_eq (ch : Chunks) (n : Nat) : ch.takeRuns n = ch.toList.take n := by
  simp [takeRuns, pushRuns_eq]

theorem foldl_eq {β : Type} (f : β → Bytes → β) (b : β) (ch : Chunks) :
    ch.foldl f b = ch.toList.foldl f b := by
  induction ch using induction generalizing b with
  | none ch h => simp [foldl_of_none h, toList_of_none h]
  | some ch c r h ih => simp [foldl_of_some h, toList_of_some h, ih]

/-- A traversal that may stop is one over the list of runs. -/
theorem foldUntil_eq {ε β : Type} (f : β → Bytes → Except ε β) (b : β) (ch : Chunks) :
    ch.foldUntil f b = ch.toList.foldlM f b := by
  induction ch using induction generalizing b with
  | none ch h =>
    rw [foldUntil, toList_of_none h]
    split
    · rfl
    · next h' => simp [h] at h'
  | some ch c r h ih =>
    rw [foldUntil, toList_of_some h]
    split
    · next h' => simp [h] at h'
    · next h' =>
      rw [h] at h'
      simp only [Option.some.injEq, Prod.mk.injEq] at h'
      obtain ⟨rfl, rfl⟩ := h'
      simp only [List.foldlM_cons]
      cases f b c with
      | error e => rfl
      | ok b' => exact ih b'

theorem bytes_eq_flatten (ch : Chunks) : ch.bytes = ch.toList.flatten := by
  have (acc : Bytes) : ∀ l : List Bytes,
      l.foldl (fun acc c => c.reverseAux acc) acc = l.flatten.reverse ++ acc := by
    intro l
    induction l generalizing acc with
    | nil => rfl
    | cons c l ih =>
      rw [List.foldl_cons, ih, List.reverseAux_eq, List.flatten_cons, List.reverse_append,
        List.append_assoc]
  rw [bytes, foldl_eq, this, List.append_nil, List.reverse_reverse]

theorem ne_nil_of_mem_toList (ch : Chunks) : ∀ c ∈ ch.toList, c ≠ [] := by
  induction ch using induction with
  | none ch h => simp [toList_of_none h]
  | some ch c r h ih =>
    simp only [toList_of_some h, List.mem_cons, forall_eq_or_imp]
    exact ⟨(next?_eq_some h).1, ih⟩

theorem length_bytes_le (ch : Chunks) : ch.bytes.length ≤ ch.width := by
  rw [bytes_eq_flatten]
  induction ch using induction with
  | none ch h => simp [toList_of_none h]
  | some ch c r h ih =>
    have := (next?_eq_some h).2
    simp only [toList_of_some h, List.flatten_cons, List.length_append]
    omega

end Chunks

namespace ByteSeq

/-- The runs from a position to the end. -/
def chunksFrom (s : ByteSeq) (pos : Nat) : Chunks := [⟨s, pos, s.length⟩]

/-- All the runs. -/
def chunks (s : ByteSeq) : Chunks := s.chunksFrom 0

/-- All the bytes. -/
def toBytes (s : ByteSeq) : Bytes := s.chunks.bytes

/-- The bytes in an array of their own, which makes room for the whole length first. -/
def gather (s : ByteSeq) : Outcome Bytes :=
  if s.length ≤ arrayMax then .ok s.toBytes else .error (.panic (.arrayTooLarge s.length))

/-- The same bytes in one array. -/
def copy (s : ByteSeq) : Outcome ByteSeq := s.gather.map array

end ByteSeq
end StoreClient
