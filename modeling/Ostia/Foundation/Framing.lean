import Mathlib.Data.List.Flatten
import Mathlib.Data.List.Infix

/-!
# Messages over a stream

A message travels behind its length, which takes a fixed number of places.  The stream gives back
what was put in, in pieces of any size, and the reader asks for no more than the message at hand
needs.
-/

namespace Ostia
namespace Foundation
namespace Framing

/-- A length in a fixed number of places. -/
structure Codec (B : Type) where
  width : Nat
  bound : Nat
  put : Nat -> List B
  get : List B -> Nat
  width_pos : 0 < width
  length_put : forall n, (put n).length = width
  get_put : forall n, n < bound -> get (put n) = n
  get_lt : forall places, places.length = width -> get places < bound

variable {B : Type} (c : Codec B)

def frame (m : List B) : List B := c.put m.length ++ m

def frames (ms : List (List B)) : List B := ms.flatMap (frame c)

@[simp] theorem frames_nil : frames c [] = [] := rfl

@[simp] theorem frames_cons (m : List B) (ms : List (List B)) :
    frames c (m :: ms) = frame c m ++ frames c ms := rfl

theorem frame_ne_nil (m : List B) : frame c m ≠ [] := by
  intro h
  have hlength := congrArg List.length h
  unfold frame at hlength
  rw [List.length_append, c.length_put] at hlength
  have hpos := c.width_pos
  rw [List.length_nil] at hlength
  omega

/-- Some of what is left to send goes into the stream. -/
def push (k : Nat) (rest stream : List B) : Option (List B × List B) :=
  if 0 < k ∧ k ≤ rest.length then some (rest.drop k, stream ++ rest.take k) else none

theorem push_eq_some {k : Nat} {rest stream rest' stream' : List B}
    (h : push k rest stream = some (rest', stream')) : stream' ++ rest' = stream ++ rest := by
  unfold push at h
  split_ifs at h
  cases h
  rw [List.append_assoc, List.take_append_drop]

/-!
## The reader
-/

/-- A reader in the middle of a length, or of the message behind it. -/
inductive Reader (B : Type) where
  | header (got : List B)
  | body (length : Nat) (got : List B)
deriving DecidableEq

def Reader.start : Reader B := .header []

/-- What the reader asks the stream for. -/
def Reader.need : Reader B -> Nat
  | .header got => c.width - got.length
  | .body length got => length - got.length

/-- A piece of the stream is added; a whole message is handed out. -/
def Reader.receive (piece : List B) : Reader B -> Reader B × Option (List B)
  | .header got =>
      if (got ++ piece).length < c.width then (.header (got ++ piece), none)
      else if c.get (got ++ piece) = 0 then (.start, some [])
      else (.body (c.get (got ++ piece)) [], none)
  | .body length got =>
      if (got ++ piece).length < length then (.body length (got ++ piece), none)
      else (.start, some (got ++ piece))

/-- Some of the stream goes to the reader. -/
def Reader.pull (k : Nat) (r : Reader B) (stream : List B) :
    Option ((Reader B × Option (List B)) × List B) :=
  if 0 < k ∧ k ≤ r.need c ∧ k ≤ stream.length then
    some (r.receive c (stream.take k), stream.drop k)
  else none

/-- The part of a frame that the reader holds. -/
def Reader.held : Reader B -> List B
  | .header got => got
  | .body length got => c.put length ++ got

/-- A reader that waits for more. -/
def Reader.Open : Reader B -> Prop
  | .header got => got.length < c.width
  | .body length got => got.length < length ∧ length < c.bound

theorem open_start : (Reader.start : Reader B).Open c := c.width_pos

theorem need_pos {r : Reader B} (h : r.Open c) : 0 < r.need c := by
  cases r with
  | header got => exact Nat.sub_pos_of_lt h
  | body length got => exact Nat.sub_pos_of_lt h.1

/-- Two starts of one stream, of the same length, are the same. -/
theorem eq_of_append_eq {a b x y : List B} (h : a ++ x = b ++ y) (hlength : a.length = b.length) :
    a = b ∧ x = y := List.append_inj h hlength

/-- What a reader makes of the next piece of a stream of frames. -/
inductive Received (r : Reader B) (piece rest : List B) (ms : List (List B)) :
    Reader B × Option (List B) -> Prop
  | more (next : Reader B) (hopen : next.Open c) (hheld : next.held c = r.held c ++ piece) :
      Received r piece rest ms (next, none)
  | message (m : List B) (later : List (List B)) (hms : ms = m :: later)
      (hrest : rest = frames c later) :
      Received r piece rest ms (.start, some m)

variable {c}

/-- In the middle of a frame, the stream goes on with a frame. -/
theorem exists_cons_of_held {held rest : List B} {ms : List (List B)}
    (h : held ++ rest = frames c ms) (hne : held ++ rest ≠ []) :
    exists m later, ms = m :: later ∧ held ++ rest = c.put m.length ++ (m ++ frames c later) := by
  cases ms with
  | nil => exact absurd h hne
  | cons m later =>
      refine ⟨m, later, rfl, ?_⟩
      rw [h, frames_cons, frame, List.append_assoc]

/-- A reader that takes no more than it asks for hands out the messages of the stream. -/
theorem received {r : Reader B} {piece rest : List B} {ms : List (List B)} (hopen : r.Open c)
    (hbound : forall m, m ∈ ms -> m.length < c.bound) (hpiece : piece ≠ [])
    (hneed : piece.length ≤ r.need c)
    (h : r.held c ++ piece ++ rest = frames c ms) :
    Received c r piece rest ms (r.receive c piece) := by
  have hpos : 0 < piece.length := List.length_pos_iff.mpr hpiece
  have hne : r.held c ++ piece ++ rest ≠ [] := by
    intro hnil
    rw [List.append_assoc, List.append_eq_nil_iff, List.append_eq_nil_iff] at hnil
    exact hpiece hnil.2.1
  obtain ⟨m, later, hms, hstream⟩ := exists_cons_of_held h hne
  have hm : m.length < c.bound := by
    apply hbound
    rw [hms]
    exact List.mem_cons_self
  cases r with
  | header got =>
      have hgot : got.length < c.width := hopen
      have hasked : piece.length ≤ c.width - got.length := hneed
      have hstream : got ++ piece ++ rest = c.put m.length ++ (m ++ frames c later) := hstream
      show Received c _ piece rest ms (if (got ++ piece).length < c.width then _ else _)
      split_ifs with hshort hempty
      · exact .more (.header (got ++ piece)) hshort rfl
      · have hput := eq_of_append_eq hstream (by
          rw [c.length_put]
          rw [List.length_append] at hshort ⊢
          omega)
        rw [hput.1, c.get_put _ hm] at hempty
        have hnil := List.length_eq_zero_iff.mp hempty
        rw [hnil] at hms hput
        exact .message [] later hms hput.2
      · have hput := eq_of_append_eq hstream (by
          rw [c.length_put]
          rw [List.length_append] at hshort ⊢
          omega)
        rw [hput.1, c.get_put _ hm] at hempty ⊢
        apply Received.more
        · exact ⟨Nat.pos_of_ne_zero hempty, hm⟩
        · show c.put m.length ++ [] = got ++ piece
          rw [List.append_nil, hput.1]
  | body length got =>
      have hgot : got.length < length ∧ length < c.bound := hopen
      have hasked : piece.length ≤ length - got.length := hneed
      have hsplit : c.put length ++ (got ++ piece ++ rest) =
          c.put m.length ++ (m ++ frames c later) := by
        rw [<- hstream]
        show _ = c.put length ++ got ++ piece ++ rest
        simp only [List.append_assoc]
      have hput := eq_of_append_eq hsplit (by rw [c.length_put, c.length_put])
      have hlength : length = m.length := by
        rw [<- c.get_put length hgot.2, hput.1, c.get_put m.length hm]
      show Received c _ piece rest ms (if (got ++ piece).length < length then _ else _)
      split_ifs with hshort
      · apply Received.more (.body length (got ++ piece))
        · exact ⟨hshort, hgot.2⟩
        · exact (List.append_assoc _ _ _).symm
      · have hbody := eq_of_append_eq hput.2 (by
          rw [<- hlength]
          rw [List.length_append] at hshort ⊢
          omega)
        rw [hbody.1]
        exact .message m later hms hbody.2

/-- Whatever the stream holds, a reader waits for more or hands out a message. -/
theorem received_any {r : Reader B} {piece : List B} (hopen : r.Open c)
    (hneed : piece.length ≤ r.need c) :
    (exists next, r.receive c piece = (next, none) ∧ next.Open c ∧
      (next.held c).length = (r.held c).length + piece.length) ∨
    exists m, r.receive c piece = (.start, some m) ∧
      c.width + m.length = (r.held c).length + piece.length := by
  cases r with
  | header got =>
      have hgot : got.length < c.width := hopen
      have hasked : piece.length ≤ c.width - got.length := hneed
      have hheld : ((Reader.header got).held c).length = got.length := rfl
      have hlength : (got ++ piece).length = got.length + piece.length := List.length_append
      rw [Reader.receive, hheld]
      split_ifs with hshort hempty
      · exact Or.inl ⟨_, rfl, hshort, hlength⟩
      · right
        refine ⟨[], rfl, ?_⟩
        rw [List.length_nil]
        omega
      · have hwidth : (got ++ piece).length = c.width := by omega
        left
        refine ⟨_, rfl, ⟨Nat.pos_of_ne_zero hempty, c.get_lt _ hwidth⟩, ?_⟩
        show (c.put _ ++ []).length = _
        rw [List.append_nil, c.length_put]
        omega
  | body length got =>
      have hgot : got.length < length ∧ length < c.bound := hopen
      have hasked : piece.length ≤ length - got.length := hneed
      have hheld : ((Reader.body length got).held c).length = c.width + got.length := by
        show (c.put length ++ got).length = _
        rw [List.length_append, c.length_put]
      have hlength : (got ++ piece).length = got.length + piece.length := List.length_append
      rw [Reader.receive, hheld]
      split_ifs with hshort
      · left
        refine ⟨_, rfl, ⟨hshort, hgot.2⟩, ?_⟩
        show (c.put length ++ (got ++ piece)).length = _
        rw [List.length_append, c.length_put]
        omega
      · right
        refine ⟨_, rfl, ?_⟩
        omega

theorem pulled {k : Nat} {r : Reader B} {stream rest stream' : List B} {ms : List (List B)}
    {result : Reader B × Option (List B)} (hopen : r.Open c)
    (hbound : forall m, m ∈ ms -> m.length < c.bound)
    (h : r.held c ++ stream ++ rest = frames c ms)
    (hpull : r.pull c k stream = some (result, stream')) :
    exists piece, piece ≠ [] ∧ stream = piece ++ stream' ∧
      Received c r piece (stream' ++ rest) ms result := by
  unfold Reader.pull at hpull
  split_ifs at hpull with hk
  cases hpull
  have hpiece : stream.take k ≠ [] := by
    intro hnil
    have hlength := congrArg List.length hnil
    rw [List.length_take, List.length_nil] at hlength
    omega
  refine ⟨stream.take k, hpiece, (List.take_append_drop k stream).symm, ?_⟩
  apply received hopen hbound hpiece
  · rw [List.length_take]
    omega
  · rw [<- h]
    simp only [List.append_assoc]
    rw [<- List.append_assoc (stream.take k), List.take_append_drop]

theorem pulled_any {k : Nat} {r : Reader B} {stream stream' : List B}
    {result : Reader B × Option (List B)} (hopen : r.Open c)
    (hpull : r.pull c k stream = some (result, stream')) :
    0 < k ∧ stream'.length + k = stream.length ∧
      ((exists next, result = (next, none) ∧ next.Open c ∧
        (next.held c).length = (r.held c).length + k) ∨
      exists m, result = (.start, some m) ∧ c.width + m.length = (r.held c).length + k) := by
  unfold Reader.pull at hpull
  split_ifs at hpull with hk
  cases hpull
  have hpiece : (stream.take k).length = k := List.length_take_of_le hk.2.2
  refine ⟨hk.1, ?_, ?_⟩
  · rw [List.length_drop]
    exact Nat.sub_add_cancel hk.2.2
  · have hreceived := received_any hopen (show (stream.take k).length ≤ r.need c by omega)
    rw [hpiece] at hreceived
    exact hreceived

theorem exists_pull {r : Reader B} {stream : List B} (hopen : r.Open c) (h : stream ≠ []) :
    exists result, r.pull c 1 stream = some (result, stream.tail) := by
  have hlength := List.length_pos_iff.mpr h
  refine ⟨r.receive c (stream.take 1), ?_⟩
  unfold Reader.pull
  rw [if_pos ⟨Nat.one_pos, need_pos c hopen, hlength⟩, List.drop_one]

theorem push_all {rest stream : List B} (h : rest ≠ []) :
    push rest.length rest stream = some ([], stream ++ rest) := by
  unfold push
  rw [if_pos ⟨List.length_pos_iff.mpr h, Nat.le_refl _⟩, List.drop_length, List.take_length]

/-- A reader in the middle of a frame does not hold whole frames. -/
theorem eq_nil_of_held {r : Reader B} (hopen : r.Open c) {ms : List (List B)}
    (hbound : forall m, m ∈ ms -> m.length < c.bound) (h : r.held c = frames c ms) : ms = [] := by
  by_contra hne
  obtain ⟨m, later, hms⟩ := List.exists_cons_of_ne_nil hne
  have hm : m.length < c.bound := by
    apply hbound
    rw [hms]
    exact List.mem_cons_self
  rw [hms, frames_cons, frame, List.append_assoc] at h
  have hlength := congrArg List.length h
  simp only [List.length_append, c.length_put] at hlength
  cases r with
  | header got =>
      have hgot : got.length < c.width := hopen
      have hheld : (Reader.header got).held c = got := rfl
      rw [hheld] at hlength
      omega
  | body length got =>
      have hgot : got.length < length ∧ length < c.bound := hopen
      have hput := eq_of_append_eq (show c.put length ++ got = _ from h)
        (by rw [c.length_put, c.length_put])
      have hsame : length = m.length := by
        rw [<- c.get_put length hgot.2, hput.1, c.get_put m.length hm]
      have hheld : ((Reader.body length got).held c).length = c.width + got.length := by
        show (c.put length ++ got).length = _
        rw [List.length_append, c.length_put]
      omega

end Framing
end Foundation
end Ostia
