import StoreClient.ByteSeq.Compare
import StoreClient.ByteSeq.Text
import StoreClient.Proofs.ByteSeq.Room

/-! # Unreliable buffers

A buffer may break its promises: it may answer with nothing before its end, with too little or too
much, and with something else each time that it is asked.  A loop over a sequence ends all the same.

A loop is given by one `Turn`, in which at most one buffer is asked; `Turn.within` takes so many
turns, in which the buffers answer as an outsider pleases (`Answers`), and gives up when these did
not suffice.  The frames that are still to be visited promise some bytes and hold some nodes.  A
turn that shows a run takes its bytes off the promise, and one that shows none takes a node away
(`Chunks.opened_open`), so the turns of a whole traversal are bounded by length and nodes of the
sequence before the first buffer is asked (`ByteSeq.built_ends`).  No range and no sum leaves its
bounds on the way, for a turn reads with all checks (`Frame.checkedView`).

If the buffers give their own answers, the loops come to what `Chunks.next?`, `Chunks.foldUntil` and
`Chunks.compareFrom` compute. -/

namespace StoreClient

/-! ### Loops -/

/-- One turn of a loop: it goes on, ends, or panics. -/
inductive Turn (σ ρ : Type) where
  | again (state : σ)
  | done (result : ρ)
  | panic

namespace Turn

/-- A loop that waits for a call in it, and goes on with what the call returns. -/
def inside {σ ρ τ ω : Type} (wait : σ → τ) (resume : ρ → Turn τ ω) : Turn σ ρ → Turn τ ω
  | again s => again (wait s)
  | done r => resume r
  | panic => panic

variable {α σ ρ : Type}

/-- The result of a loop that ends within so many turns, the first of them with the first input. -/
def within (turn : α → σ → Turn σ ρ) : (turns : Nat) → (Nat → α) → σ → Option ρ
  | 0, _, _ => none
  | n + 1, inputs, s =>
    match turn (inputs 0) s with
    | again s => within turn n (fun i => inputs (i + 1)) s
    | done r => some r
    | panic => none

/-- The loop comes nearer to its end, among states with a property. -/
def Nears (P : σ → Prop) (μ : σ → Nat) (s : σ) : Turn σ ρ → Prop
  | again s' => P s' ∧ μ s' < μ s
  | done _ => True
  | panic => False

/-- The loop goes on with a property, or ends with a result that is right. -/
def Keeps (I : σ → Prop) (R : ρ → Prop) : Turn σ ρ → Prop
  | again s => I s
  | done r => R r
  | panic => True

/-- A loop that comes nearer to its end with each turn ends within as many turns as the distance
says, and if each turn keeps a property it ends rightly. -/
theorem exists_within (turn : α → σ → Turn σ ρ) (allowed : α → Prop) {P I : σ → Prop} {μ : σ → Nat}
    {R : ρ → Prop} (nears : ∀ a s, P s → Nears P μ s (turn a s))
    (keeps : ∀ a s, allowed a → P s → I s → Keeps I R (turn a s)) (inputs : Nat → α)
    (hinputs : ∀ i, allowed (inputs i)) {s : σ} (hs : P s) (hI : I s) {n : Nat} (hn : μ s < n) :
    ∃ r, within turn n inputs s = some r ∧ R r := by
  induction n generalizing inputs s with
  | zero => exact absurd hn (Nat.not_lt_zero _)
  | succ n ih =>
    have hnears := nears (inputs 0) s hs
    have hkeeps := keeps (inputs 0) s (hinputs 0) hs hI
    rw [within]
    cases ht : turn (inputs 0) s with
    | again s' =>
      rw [ht] at hnears hkeeps
      obtain ⟨hs', hless⟩ := hnears
      exact ih _ (fun i => hinputs (i + 1)) hs' hkeeps (by omega)
    | done r =>
      rw [ht] at hkeeps
      exact ⟨r, rfl, hkeeps⟩
    | panic =>
      rw [ht] at hnears
      exact hnears.elim

end Turn

/-! ### Turns of a traversal -/

/-- What each buffer answers when it is asked for the run at a position. -/
abbrev Answers := Buffer → Nat → Bytes

def Answers.own : Answers := Buffer.chunkAt

/-- The frame, if it is to be opened under such answers. -/
def Frame.under (answers : Answers) (f : Frame) : Frame :=
  match f.seq with
  | .buffer v => f.answering (answers v.buffer)
  | _ => f

/-- A frame with bounds that its sequence keeps, at every node. -/
abbrev Frame.Fits (f : Frame) : Prop := f.Inside (ByteSeq.Tidy fun _ => True)

namespace Frame

variable {f : Frame} {answers : Answers}

theorem under_own (f : Frame) : f.under .own = f := by
  obtain ⟨seq, start, stop⟩ := f
  cases seq <;> rfl

theorem fits_under (h : f.Fits) (answers : Answers) : (f.under answers).Fits := by
  unfold under
  split
  · exact h.answering _
  · exact h

theorem nodes_under (f : Frame) (answers : Answers) :
    (f.under answers).seq.nodes = f.seq.nodes := by
  obtain ⟨seq, start, stop⟩ := f
  cases seq <;> rfl

theorem width_under (f : Frame) (answers : Answers) : (f.under answers).width = f.width := by
  obtain ⟨seq, start, stop⟩ := f
  cases seq <;> rfl

theorem nodes_of_view_eq_run {run : Bytes} {rest : List Frame} (h : f.view = .run run rest) :
    Chunks.nodes rest ≤ f.seq.nodes := by
  unfold view at h
  split at h
  · cases h
  · split at h
    · cases h
    · rw [(View.ofRun_eq_run h).2.1]
      exact Nat.zero_le _
    · rw [(View.ofRun_eq_run h).2.1]
      exact Nat.zero_le _
    · rw [(View.ofRun_eq_run h).2.1]
      split
      · exact Nat.le_refl _
      · exact Nat.zero_le _
    · cases h
    · cases h

end Frame

namespace Chunks

/-- Opens the nearest frame: another frame is then the nearest, or a run is shown. -/
def openFirst (answers : Answers) (f : Frame) (fs : Chunks) : Turn Chunks (Bytes × Chunks) :=
  match (f.under answers).checkedView with
  | some (.run run rest) => .done (run, rest ++ fs)
  | some (.parts parts) => .again (parts ++ fs)
  | none => .panic

/-- One turn in the search for the next run. -/
def nextTurn (answers : Answers) : Chunks → Turn Chunks (Option (Bytes × Chunks))
  | [] => .done none
  | f :: fs => (openFirst answers f fs).inside id fun next => .done (some next)

/-- One turn of a loop that feeds the runs in order to `take`, until there are no more or it
stops. -/
def eachTurn {ε β : Type} (take : β → Bytes → Except ε β) (answers : Answers) :
    β × Chunks → Turn (β × Chunks) (Except ε β)
  | (b, []) => .done (.ok b)
  | (b, f :: fs) => (openFirst answers f fs).inside (b, ·) fun (run, rest) =>
    match take b run with
    | .ok b => .again (b, rest)
    | .error e => .done (.error e)

/-- What is left of two traversals that are compared, with the unread parts of the runs that were
opened last. -/
structure Comparing where
  left : Bytes
  lhs : Chunks
  right : Bytes
  rhs : Chunks

/-- One turn of a comparison: a side that ran dry looks for its next run, or the unread parts are
compared as far as the shorter reaches. -/
def compareTurn (answers : Answers) : Comparing → Turn Comparing Ordering
  | ⟨[], f :: fs, b, rhs⟩ => (openFirst answers f fs).inside (⟨[], ·, b, rhs⟩) fun (run, lhs) =>
    .again ⟨run, lhs, b, rhs⟩
  | ⟨a, lhs, [], f :: fs⟩ => (openFirst answers f fs).inside (⟨a, lhs, [], ·⟩) fun (run, rhs) =>
    .again ⟨a, lhs, run, rhs⟩
  | ⟨[], [], [], []⟩ => .done .eq
  | ⟨[], [], _ :: _, _⟩ => .done .lt
  | ⟨_ :: _, _, [], []⟩ => .done .gt
  | ⟨x :: a, lhs, y :: b, rhs⟩ =>
    let front := Bytes.compareFront (x :: a) (y :: b)
    match front.1 with
    | .eq => .again ⟨front.2.1, lhs, front.2.2, rhs⟩
    | .lt => .done .lt
    | .gt => .done .gt

/-- Every frame has bounds that its sequence keeps. -/
def Fit (ch : Chunks) : Prop := ∀ f ∈ ch, f.Fits

theorem Fit.head {f : Frame} {fs : Chunks} (h : Fit (f :: fs)) : f.Fits := h f List.mem_cons_self

theorem Fit.tail {f : Frame} {fs : Chunks} (h : Fit (f :: fs)) : Fit fs :=
  fun g hg => h g (List.mem_cons_of_mem f hg)

theorem Fit.append {a b : Chunks} (ha : Fit a) (hb : Fit b) : Fit (a ++ b) := by
  intro f hf
  rcases List.mem_append.mp hf with hf | hf
  · exact ha f hf
  · exact hb f hf

/-- What opening the nearest frame leads to. -/
inductive Opened (f : Frame) (fs : Chunks) : Turn Chunks (Bytes × Chunks) → Prop
  | again {ch : Chunks} (fit : ch.Fit) (width : ch.width ≤ width (f :: fs))
    (nodes : ch.nodes < nodes (f :: fs)) : Opened f fs (.again ch)
  | done {run : Bytes} {rest : Chunks} (fit : rest.Fit) (ne_nil : run ≠ [])
    (width : run.length + rest.width ≤ width (f :: fs)) (nodes : rest.nodes ≤ nodes (f :: fs)) :
    Opened f fs (.done (run, rest))

/-- Whatever the buffers answer: frames promise no more than the one that was opened, a run is taken
off the promise, and without a run there are fewer nodes. -/
theorem opened_open {f : Frame} {fs : Chunks} (h : Fit (f :: fs)) (answers : Answers) :
    Opened f fs (openFirst answers f fs) := by
  have hf := Frame.fits_under h.head answers
  have hrest : Fit (f.under answers).view.rest := Frame.inside_of_view ByteSeq.passesDown_tidy hf
  rw [openFirst, Frame.checkedView_eq hf]
  cases hv : (f.under answers).view with
  | run run rest =>
    rw [hv] at hrest
    obtain ⟨hne, hwidth⟩ := Frame.width_of_view_eq_run hv
    have hnodes := Frame.nodes_of_view_eq_run hv
    rw [Frame.width_under] at hwidth
    rw [Frame.nodes_under] at hnodes
    refine .done (hrest.append h.tail) hne ?_ ?_
    · rw [width_append, width_cons]
      omega
    · rw [nodes_append, nodes_cons]
      omega
  | parts parts =>
    rw [hv] at hrest
    have hwidth := Frame.width_of_view_eq_parts hv
    have hnodes := Frame.nodes_of_view_eq_parts hv
    rw [Frame.width_under] at hwidth
    rw [Frame.nodes_under] at hnodes
    refine .again (hrest.append h.tail) ?_ ?_
    · rw [width_append, width_cons]
      omega
    · rw [nodes_append, nodes_cons]
      omega

/-- With the buffers' own answers the search goes on to the same next run. -/
theorem keeps_openFirst_own {f : Frame} {fs : Chunks} (h : Fit (f :: fs)) :
    (openFirst .own f fs).Keeps (fun ch => next? (f :: fs) = next? ch)
      (fun next => next? (f :: fs) = some next) := by
  rw [openFirst, Frame.under_own, Frame.checkedView_eq h.head]
  cases hv : f.view with
  | run run rest => exact next?_of_run hv fs
  | parts parts => exact next?_of_parts hv fs

/-! ### The next run -/

theorem nears_nextTurn (answers : Answers) {ch : Chunks} (h : ch.Fit) :
    (ch.nextTurn answers).Nears Fit nodes ch := by
  cases ch with
  | nil => trivial
  | cons f fs =>
    have hopen := opened_open h answers
    rw [nextTurn]
    generalize openFirst answers f fs = t at hopen
    cases hopen with
    | again fit width nodes => exact ⟨fit, nodes⟩
    | done => trivial

/-- A run that was looked for is not empty, and with what is left it fits into the promise. -/
def Shows (n : Nat) : Option (Bytes × Chunks) → Prop
  | none => True
  | some (run, rest) => run ≠ [] ∧ rest.Fit ∧ run.length + rest.width ≤ n

theorem keeps_nextTurn (answers : Answers) {n : Nat} {ch : Chunks} (h : ch.Fit)
    (hn : ch.width ≤ n) : (ch.nextTurn answers).Keeps (·.width ≤ n) (Shows n) := by
  cases ch with
  | nil => trivial
  | cons f fs =>
    have hopen := opened_open h answers
    rw [nextTurn]
    generalize openFirst answers f fs = t at hopen
    cases hopen with
    | again fit width nodes => exact Nat.le_trans width hn
    | done fit ne_nil width nodes => exact ⟨ne_nil, fit, Nat.le_trans width hn⟩

theorem keeps_nextTurn_own {ch : Chunks} (h : ch.Fit) :
    (ch.nextTurn .own).Keeps (fun ch' => ch.next? = ch'.next?) (ch.next? = ·) := by
  cases ch with
  | nil => exact next?.eq_1
  | cons f fs =>
    have hopen := keeps_openFirst_own h
    rw [nextTurn]
    cases ho : openFirst .own f fs with
    | again ch' =>
      rw [ho] at hopen
      exact hopen
    | done next =>
      rw [ho] at hopen
      exact hopen
    | panic => trivial

/-! ### Whole traversals -/

section
variable {ε β : Type} {take : β → Bytes → Except ε β}

theorem nears_eachTurn (answers : Answers) {s : β × Chunks} (h : s.2.Fit) :
    (eachTurn take answers s).Nears (fun s => s.2.Fit) (fun s => s.2.width + s.2.nodes) s := by
  obtain ⟨b, ch⟩ := s
  cases ch with
  | nil => trivial
  | cons f fs =>
    have hopen := opened_open h answers
    rw [eachTurn]
    generalize openFirst answers f fs = t at hopen
    cases hopen with
    | again fit width nodes => exact ⟨fit, Nat.add_lt_add_of_le_of_lt width nodes⟩
    | @done run rest fit ne_nil width nodes =>
      simp only [Turn.inside]
      cases take b run with
      | error e => trivial
      | ok b' =>
        have hpos := List.length_pos_iff.mpr ne_nil
        exact ⟨fit, by simp only; omega⟩

/-- What is true of the runs taken so far and of what the frames still promise stays true, if it
stays true with every run that is not empty. -/
theorem keeps_eachTurn (answers : Answers) {I : β → Nat → Prop}
    (mono : ∀ b m n, m ≤ n → I b n → I b m)
    (shown : ∀ b run b' n, run ≠ [] → take b run = .ok b' → I b (run.length + n) → I b' n)
    {s : β × Chunks} (h : s.2.Fit) (hI : I s.1 s.2.width) :
    (eachTurn take answers s).Keeps (fun s => I s.1 s.2.width)
      (fun r => ∀ b, r = .ok b → I b 0) := by
  obtain ⟨b, ch⟩ := s
  cases ch with
  | nil =>
    rintro _ ⟨⟩
    exact hI
  | cons f fs =>
    have hopen := opened_open h answers
    rw [eachTurn]
    generalize openFirst answers f fs = t at hopen
    cases hopen with
    | again fit width nodes => exact mono _ _ _ width hI
    | @done run rest fit ne_nil width nodes =>
      simp only [Turn.inside]
      cases htake : take b run with
      | error e =>
        intro b' hb
        cases hb
      | ok b' => exact shown b run b' _ ne_nil htake (mono _ _ _ width hI)

theorem toList_congr {ch ch' : Chunks} (h : ch.next? = ch'.next?) : ch.toList = ch'.toList := by
  cases hn : ch'.next? with
  | none => rw [toList_of_none hn, toList_of_none (h.trans hn)]
  | some next => rw [toList_of_some hn, toList_of_some (h.trans hn)]

theorem keeps_eachTurn_own {v : Except ε β} {s : β × Chunks} (h : s.2.Fit)
    (hv : s.2.toList.foldlM take s.1 = v) :
    (eachTurn take .own s).Keeps (fun s => s.2.toList.foldlM take s.1 = v) (· = v) := by
  obtain ⟨b, ch⟩ := s
  cases ch with
  | nil =>
    have hnil : toList [] = [] := toList_of_none next?.eq_1
    rw [hnil] at hv
    exact hv
  | cons f fs =>
    have hopen := keeps_openFirst_own h
    rw [eachTurn]
    cases ho : openFirst .own f fs with
    | panic => trivial
    | again ch' =>
      rw [ho] at hopen
      show ch'.toList.foldlM take b = v
      rw [← toList_congr hopen]
      exact hv
    | done next =>
      obtain ⟨run, rest⟩ := next
      rw [ho] at hopen
      have hlist : toList (f :: fs) = run :: rest.toList := toList_of_some hopen
      rw [hlist, List.foldlM_cons] at hv
      simp only [Turn.inside]
      cases htake : take b run with
      | error e =>
        rw [htake] at hv
        exact hv
      | ok b' =>
        rw [htake] at hv
        exact hv

end

/-! ### Comparisons -/

namespace Comparing

/-- The turns that can still follow: bytes that are unread count once, bytes that are promised
twice. -/
def distance (c : Comparing) : Nat :=
  2 * (c.lhs.width + c.rhs.width) + (c.left.length + c.right.length) + (c.lhs.nodes + c.rhs.nodes)

/-- Both traversals are over frames with bounds that their sequences keep. -/
def Fit (c : Comparing) : Prop := c.lhs.Fit ∧ c.rhs.Fit

end Comparing

theorem nears_compareTurn (answers : Answers) {c : Comparing} (h : c.Fit) :
    (compareTurn answers c).Nears Comparing.Fit Comparing.distance c := by
  obtain ⟨hl, hr⟩ := h
  unfold compareTurn
  split
  · next f fs b rhs =>
    have hopen := opened_open hl answers
    generalize openFirst answers f fs = t at hopen
    cases hopen with
    | again fit width nodes =>
      refine ⟨⟨fit, hr⟩, ?_⟩
      simp only [Comparing.distance]
      omega
    | done fit ne_nil width nodes =>
      have hpos := List.length_pos_iff.mpr ne_nil
      refine ⟨⟨fit, hr⟩, ?_⟩
      simp only [Comparing.distance, List.length_nil]
      omega
  · next a lhs f fs _ =>
    have hopen := opened_open hr answers
    generalize openFirst answers f fs = t at hopen
    cases hopen with
    | again fit width nodes =>
      refine ⟨⟨hl, fit⟩, ?_⟩
      simp only [Comparing.distance]
      omega
    | done fit ne_nil width nodes =>
      have hpos := List.length_pos_iff.mpr ne_nil
      refine ⟨⟨hl, fit⟩, ?_⟩
      simp only [Comparing.distance, List.length_nil]
      omega
  · trivial
  · trivial
  · trivial
  · next x a lhs y b rhs =>
    have hless := @Bytes.length_compareFront_lt (x :: a) (y :: b) nofun nofun
    simp only
    split
    · refine ⟨⟨hl, hr⟩, ?_⟩
      simp only [Comparing.distance]
      omega
    · trivial
    · trivial

theorem compareFrom_congr {a a' b b' : Bytes} {lhs lhs' rhs rhs' : Chunks}
    (hl : refill a lhs = refill a' lhs') (hr : refill b rhs = refill b' rhs') :
    compareFrom a lhs b rhs = compareFrom a' lhs' b' rhs' := by
  rw [compareFrom.eq_def a lhs, compareFrom.eq_def a' lhs', hl, hr]

theorem refill_of_again {ch ch' : Chunks} (h : ch.next? = ch'.next?) :
    refill [] ch = refill [] ch' := by
  simp only [refill, List.isEmpty_nil, if_true, h]

theorem refill_of_done {ch rest : Chunks} {run : Bytes} (h : ch.next? = some (run, rest)) :
    refill [] ch = refill run rest := by
  have hne : run.isEmpty = false := List.isEmpty_eq_false_iff.mpr (next?_eq_some h).1
  simp only [refill, List.isEmpty_nil, if_true, h, Option.getD_some, hne, Bool.false_eq_true,
    if_false]

/-- A side that looks for its next run with the buffers' own answers keeps what it will be refilled
with. -/
theorem keeps_refill_own {f : Frame} {fs : Chunks} (h : Fit (f :: fs)) :
    (openFirst .own f fs).Keeps (fun ch => refill [] (f :: fs) = refill [] ch)
      (fun next => refill [] (f :: fs) = refill next.1 next.2) := by
  have hopen := keeps_openFirst_own h
  cases ho : openFirst .own f fs with
  | again ch =>
    rw [ho] at hopen
    exact refill_of_again hopen
  | done next =>
    rw [ho] at hopen
    exact refill_of_done hopen
  | panic => trivial

theorem keeps_compareTurn_own {v : Ordering} {c : Comparing} (h : c.Fit)
    (hv : compareFrom c.left c.lhs c.right c.rhs = v) :
    (compareTurn .own c).Keeps (fun c => compareFrom c.left c.lhs c.right c.rhs = v) (· = v) := by
  obtain ⟨hl, hr⟩ := h
  have hnil : refill [] [] = ([], []) := by rw [refill, next?.eq_1]; rfl
  have hcons (x : UInt8) (xs : Bytes) (ch : Chunks) : refill (x :: xs) ch = (x :: xs, ch) := rfl
  unfold compareTurn
  split
  · next f fs b rhs =>
    have hopen := keeps_refill_own hl
    cases ho : openFirst .own f fs with
    | again ch =>
      rw [ho] at hopen
      exact (compareFrom_congr hopen rfl).symm.trans hv
    | done next =>
      rw [ho] at hopen
      exact (compareFrom_congr hopen rfl).symm.trans hv
    | panic => trivial
  · next a lhs f fs _ =>
    have hopen := keeps_refill_own hr
    cases ho : openFirst .own f fs with
    | again ch =>
      rw [ho] at hopen
      exact (compareFrom_congr rfl hopen).symm.trans hv
    | done next =>
      rw [ho] at hopen
      exact (compareFrom_congr rfl hopen).symm.trans hv
    | panic => trivial
  · rw [compareFrom.eq_def] at hv
    simpa [hnil, Turn.Keeps] using hv
  · next y b rhs =>
    rw [compareFrom.eq_def] at hv
    simpa [hnil, hcons, Turn.Keeps] using hv
  · next x a lhs =>
    rw [compareFrom.eq_def] at hv
    simpa [hnil, hcons, Turn.Keeps] using hv
  · next x a lhs y b rhs =>
    rw [compareFrom.eq_def] at hv
    simp only [hcons, List.isEmpty_cons, Bool.false_eq_true, dite_false] at hv
    simp only
    split
    · next heq =>
      rw [heq] at hv
      exact hv
    · next heq =>
      rw [heq] at hv
      exact hv
    · next heq =>
      rw [heq] at hv
      exact hv

end Chunks

/-! ### Sequences -/

namespace ByteSeq

open Chunks (nextTurn eachTurn compareTurn)

variable {allowed : Buffer → Prop} {s t : ByteSeq}

theorem Tidy.fit_chunks (h : s.Tidy allowed) : s.chunks.Fit := by
  intro f hf
  rw [List.mem_singleton.mp hf]
  exact ⟨h.mono fun _ _ => trivial, Nat.le_refl _⟩

def turns (s : ByteSeq) : Nat := s.length + s.nodes + 1

def compareTurns (s t : ByteSeq) : Nat := 2 * (s.length + t.length) + (s.nodes + t.nodes) + 1

def keepRun (runs : List Bytes) (run : Bytes) : Except Empty (List Bytes) := .ok (runs ++ [run])

def keepBytes (bs run : Bytes) : Except Empty Bytes := .ok (bs ++ run)

def passOn (h : HashInput) (run : Bytes) : Except Empty HashInput := .ok (h.absorb run)

def readOn (d : Decoder) (run : Bytes) : Except Empty Decoder := .ok (d.push run)

/-- The loops over a sequence end, while the buffers give other answers in every turn. -/
structure EndsUnder (s t : ByteSeq) (inputs : Nat → Answers) : Prop where
  /-- Wherever a traversal has come to, it finds the next run or that there is none. -/
  next : ∀ ch : Chunks, ch.Fit →
    ∃ next, Turn.within nextTurn (ch.nodes + 1) inputs ch = some next ∧ Chunks.Shows ch.width next
  each : ∀ {ε β : Type} (take : β → Bytes → Except ε β) (b : β),
    ∃ r, Turn.within (eachTurn take) s.turns inputs (b, s.chunks) = some r
  runs : ∃ runs, Turn.within (eachTurn keepRun) s.turns inputs ([], s.chunks) = some (.ok runs) ∧
    (∀ run ∈ runs, run ≠ []) ∧ runs.flatten.length ≤ s.length
  bytes : ∃ bs, Turn.within (eachTurn keepBytes) s.turns inputs ([], s.chunks) = some (.ok bs) ∧
    bs.length ≤ s.length
  compare : ∃ o, Turn.within compareTurn (compareTurns s t) inputs ⟨[], s.chunks, [], t.chunks⟩ =
    some o

/-- With the buffers' own answers, the loops come to what the operations answer. -/
structure ComesTo (s t : ByteSeq) : Prop where
  next : ∀ ch : Chunks, ch.Fit →
    Turn.within nextTurn (ch.nodes + 1) (fun _ => .own) ch = some ch.next?
  toBytes : Turn.within (eachTurn keepBytes) s.turns (fun _ => .own) ([], s.chunks) =
    some (.ok s.toBytes)
  hashFeed : ∃ h, Turn.within (eachTurn passOn) s.turns (fun _ => .own)
    (⟨[.length s.length], []⟩, s.chunks) = some (.ok h) ∧ h.finish = s.hashFeed
  decode : ∀ c : Charset, s.contiguous? = none →
    ∃ d, Turn.within (eachTurn readOn) s.turns (fun _ => .own) (c.decoder, s.chunks) =
      some (.ok d) ∧ d.finish = s.decode c
  writeInto : ∀ room, ∃ r, Turn.within (eachTurn Written.fill) s.turns (fun _ => .own)
    (⟨[], room⟩, s.chunks) = some r ∧ Written.ended r = s.writeInto room
  copyInto : ∀ room, ∃ r, Turn.within (eachTurn Written.put) s.turns (fun _ => .own)
    (⟨[], room⟩, s.chunks) = some r ∧ Written.ended r = s.copyInto room
  compare : s.contiguous? = none ∨ t.contiguous? = none →
    Turn.within compareTurn (compareTurns s t) (fun _ => .own) ⟨[], s.chunks, [], t.chunks⟩ =
      some (ByteSeq.compare s t)

section
variable {ε β : Type} {take : β → Bytes → Except ε β}

/-- A loop over all the runs ends, and keeps what each run that is not empty keeps. -/
theorem Tidy.exists_each (h : s.Tidy allowed) (take : β → Bytes → Except ε β)
    (inputs : Nat → Answers) {I : β → Nat → Prop}
    (mono : ∀ b m n, m ≤ n → I b n → I b m)
    (shown : ∀ b run b' n, run ≠ [] → take b run = .ok b' → I b (run.length + n) → I b' n) {b : β}
    (hI : I b s.length) :
    ∃ r, Turn.within (eachTurn take) s.turns inputs (b, s.chunks) = some r ∧
      ∀ b', r = .ok b' → I b' 0 :=
  Turn.exists_within (eachTurn take) (fun _ => True) (I := fun s => I s.1 s.2.width)
    (fun answers _ hfit => Chunks.nears_eachTurn answers hfit)
    (fun answers _ _ hfit hI => Chunks.keeps_eachTurn answers mono shown hfit hI)
    inputs (fun _ => trivial) h.fit_chunks hI (Nat.lt_succ_self _)

theorem Tidy.each_own (h : s.Tidy allowed) (b : β) :
    Turn.within (eachTurn take) s.turns (fun _ => .own) (b, s.chunks) =
      some (s.chunks.foldUntil take b) := by
  obtain ⟨r, hr, hv⟩ := Turn.exists_within (eachTurn take) (· = .own)
    (I := fun s' => s'.2.toList.foldlM take s'.1 = s.chunks.toList.foldlM take b)
    (fun answers _ hfit => Chunks.nears_eachTurn answers hfit)
    (fun answers _ hown hfit hv => by rw [hown]; exact Chunks.keeps_eachTurn_own hfit hv)
    _ (fun _ => rfl) (s := (b, s.chunks)) h.fit_chunks rfl (Nat.lt_succ_self _)
  rw [Chunks.foldUntil_eq, ← hv]
  exact hr

end

theorem foldUntil_ok {β : Type} (f : β → Bytes → β) (b : β) (ch : Chunks) :
    ch.foldUntil (fun b run => (.ok (f b run) : Except Empty β)) b = .ok (ch.foldl f b) := by
  rw [Chunks.foldUntil_eq, Chunks.foldl_eq]
  exact List.foldlM_pure

theorem foldl_append (out : Bytes) (runs : List Bytes) :
    runs.foldl (fun out run => out ++ run) out = out ++ runs.flatten := by
  induction runs generalizing out with
  | nil => rw [List.foldl_nil, List.flatten_nil, List.append_nil]
  | cons run runs ih => rw [List.foldl_cons, ih, List.append_assoc, List.flatten_cons]

theorem Tidy.fit_comparing (hs : s.Tidy allowed) (ht : t.Tidy allowed) :
    Chunks.Comparing.Fit ⟨[], s.chunks, [], t.chunks⟩ := ⟨hs.fit_chunks, ht.fit_chunks⟩

theorem Tidy.endsUnder (hs : s.Tidy allowed) (ht : t.Tidy allowed) (inputs : Nat → Answers) :
    s.EndsUnder t inputs where
  next ch hch := Turn.exists_within nextTurn (fun _ => True) (I := fun ch' => ch'.width ≤ ch.width)
    (fun answers _ hfit => Chunks.nears_nextTurn answers hfit)
    (fun answers _ _ hfit hn => Chunks.keeps_nextTurn answers hfit hn)
    inputs (fun _ => trivial) hch (Nat.le_refl _) (Nat.lt_succ_self _)
  each take b := by
    obtain ⟨r, hr, -⟩ := hs.exists_each take inputs (I := fun _ _ => True) (b := b)
      (fun _ _ _ _ _ => trivial) (fun _ _ _ _ _ _ _ => trivial) trivial
    exact ⟨r, hr⟩
  runs := by
    have hkeep : ∀ runs run runs' n, run ≠ [] → keepRun runs run = .ok runs' →
        (∀ r ∈ runs, r ≠ []) ∧ runs.flatten.length + (run.length + n) ≤ s.length →
        (∀ r ∈ runs', r ≠ []) ∧ runs'.flatten.length + n ≤ s.length := by
      rintro runs run _ n hne ⟨⟩ ⟨hall, hlength⟩
      constructor
      · intro r hr
        rcases List.mem_append.mp hr with hr | hr
        · exact hall r hr
        · exact List.mem_singleton.mp hr ▸ hne
      · rw [List.flatten_append, List.length_append, List.flatten_singleton]
        omega
    obtain ⟨r, hr, hI⟩ := hs.exists_each keepRun inputs (b := [])
      (I := fun runs n => (∀ r ∈ runs, r ≠ []) ∧ runs.flatten.length + n ≤ s.length)
      (fun _ _ _ hle hI => ⟨hI.1, by omega⟩) hkeep ⟨nofun, Nat.le_of_eq (Nat.zero_add _)⟩
    cases r with
    | error e => exact e.elim
    | ok runs => exact ⟨runs, hr, hI runs rfl⟩
  bytes := by
    have hkeep : ∀ bs run bs' n, run ≠ [] → keepBytes bs run = .ok bs' →
        bs.length + (run.length + n) ≤ s.length → bs'.length + n ≤ s.length := by
      rintro bs run _ n - ⟨⟩ hlength
      rw [List.length_append]
      omega
    obtain ⟨r, hr, hI⟩ := hs.exists_each keepBytes inputs (b := [])
      (I := fun bs n => bs.length + n ≤ s.length) (fun _ _ _ hle hI => by omega) hkeep
      (Nat.le_of_eq (Nat.zero_add _))
    cases r with
    | error e => exact e.elim
    | ok bs => exact ⟨bs, hr, hI bs rfl⟩
  compare := by
    obtain ⟨o, ho, -⟩ := Turn.exists_within compareTurn (fun _ => True)
      (I := fun _ => True) (R := fun _ => True)
      (fun answers _ hfit => Chunks.nears_compareTurn answers hfit)
      (fun answers c _ _ _ => by cases compareTurn answers c <;> trivial)
      inputs (fun _ => trivial) (hs.fit_comparing ht) trivial (Nat.lt_succ_self _)
    exact ⟨o, ho⟩

theorem compare_of_scattered (h : s.contiguous? = none ∨ t.contiguous? = none) :
    compare s t = Chunks.compareFrom [] s.chunks [] t.chunks := by
  unfold compare
  split
  · next hsc htc =>
    rw [hsc, htc] at h
    rcases h with h | h <;> cases h
  · rfl

theorem Tidy.comesTo (hs : s.Tidy allowed) (ht : t.Tidy allowed) : s.ComesTo t where
  next ch hch := by
    obtain ⟨next, hnext, hv⟩ := Turn.exists_within nextTurn (· = .own)
      (I := fun ch' => ch.next? = ch'.next?) (R := (ch.next? = ·))
      (fun answers _ hfit => Chunks.nears_nextTurn answers hfit)
      (fun answers ch' hown hfit hv => by
        have hkeeps := Chunks.keeps_nextTurn_own hfit
        rw [hown, hv]
        exact hkeeps)
      _ (fun _ => rfl) hch rfl (Nat.lt_succ_self _)
    rw [hnext, hv]
  toBytes := by
    have hall : s.chunks.foldUntil keepBytes [] = .ok s.toBytes := by
      rw [toBytes, Chunks.bytes_eq_flatten]
      refine (foldUntil_ok _ _ _).trans (congrArg Except.ok ?_)
      rw [Chunks.foldl_eq, foldl_append, List.nil_append]
    rw [hs.each_own, hall]
  hashFeed := ⟨_, (hs.each_own _).trans (congrArg some (foldUntil_ok _ _ _)), rfl⟩
  decode c hc := by
    refine ⟨_, (hs.each_own _).trans (congrArg some (foldUntil_ok _ _ _)), ?_⟩
    rw [decode, hc]
  writeInto room := ⟨_, hs.each_own _, rfl⟩
  copyInto room := ⟨_, hs.each_own _, rfl⟩
  compare hc := by
    obtain ⟨o, ho, hv⟩ := Turn.exists_within compareTurn (· = .own)
      (I := fun c => Chunks.compareFrom c.left c.lhs c.right c.rhs =
        Chunks.compareFrom [] s.chunks [] t.chunks)
      (fun answers _ hfit => Chunks.nears_compareTurn answers hfit)
      (fun answers c hown hfit hv => by rw [hown]; exact Chunks.keeps_compareTurn_own hfit hv)
      _ (fun _ => rfl) (hs.fit_comparing ht) rfl (Nat.lt_succ_self _)
    rw [compare_of_scattered hc, ← hv]
    exact ho

end ByteSeq

/-- The buffer does not show itself in one piece. -/
def Buffer.Scattered (b : Buffer) : Prop := b.contiguous? = none

namespace ByteSeq

variable {s t : ByteSeq}

/-- The loops over sequences that the operations build end, whatever the buffers under them answer
and however often they change their minds, within turns that are counted from the lengths and the
shapes alone; and with answers that do not change they come to what the operations answer. -/
theorem built_ends (hs : Built Buffer.Scattered s) (ht : Built Buffer.Scattered t) :
    (∀ inputs, s.EndsUnder t inputs) ∧ s.ComesTo t ∧ s.toBytes.length ≤ s.length :=
  ⟨hs.tidy.endsUnder ht.tidy, hs.tidy.comesTo ht.tidy, Chunks.length_bytes_le s.chunks⟩

/-- A buffer that has three of the five bytes that it claims, and an array. -/
def overstated : ByteSeq := concat (.ofBuffer (.claiming 5 [[1], [2, 3]])) (array [7]) 6

/-- Every buffer answers with two bytes in one turn and with none in the next. -/
def fickle (turn : Nat) : Answers := fun _ _ => if turn % 2 = 0 then [8, 9] else []

theorem built_ends_of_overstated : (slice overstated 1 5).EndsUnder overstated fickle ∧
    (slice overstated 1 5).ComesTo overstated ∧ (slice overstated 1 5).toBytes = [2, 3, 7] ∧
    Turn.within (Chunks.eachTurn keepRun) 9 fickle ([], (slice overstated 1 5).chunks) =
      some (.ok [[8, 9], [7]]) := by
  have hclaims : (Buffer.claiming 5 [[1], [2, 3]]).Scattered := rfl
  have hsize : (Buffer.claiming 5 [[1], [2, 3]]).size ≤ wordMax := by decide
  have harray : ([7] : Bytes).length ≤ wordMax := by decide
  have hbuilt : Built Buffer.Scattered overstated :=
    .tryConcat (.buffer hclaims hsize) (.array harray) rfl
  have hcut : overstated.subSeq 1 6 = .ok (slice overstated 1 5) := rfl
  obtain ⟨hends, hcomes, -⟩ := built_ends (.subSeq hbuilt hcut) hbuilt
  exact ⟨hends fickle, hcomes, by decide +kernel, by decide +kernel⟩

end ByteSeq
end StoreClient
