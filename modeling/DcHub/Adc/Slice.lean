import Mathlib.Data.List.Basic
import DcHub.Go

/-! # The Go values the ADC codec works on

A codec call returns a value, returns an `error`, or panics. Byte slices keep
their capacity: Go lets `s[lo:hi]` run up to `cap(s)`, so bytes past `len(s)`
stay reachable by re-slicing though they are not elements. A frame handed to
the decoder has no spare capacity, so every byte a legal expression can reach
lies inside the frame, and an expression that would leave it panics.
-/

namespace DcHub.Adc

/-- A Go `[]byte`: its elements, then the bytes after them up to its capacity. -/
structure Slice where
  elems : List UInt8
  spare : List UInt8
  deriving DecidableEq, Repr

namespace Slice

variable {ε : Type}

/-- A slice over a whole byte string, with no spare capacity. -/
def ofList (p : List UInt8) : Slice := ⟨p, []⟩

/-- The nil slice. -/
def nil : Slice := ⟨[], []⟩

def len (s : Slice) : Nat := s.elems.length

def cap (s : Slice) : Nat := s.elems.length + s.spare.length

/-- `s[i]`. -/
def get (s : Slice) (i : Nat) : Go ε UInt8 :=
  if h : i < s.elems.length then pure s.elems[i] else throw .panic

/-- `s[lo:hi]`, legal whenever `lo ≤ hi ≤ cap(s)`. -/
def slice (s : Slice) (lo hi : Nat) : Go ε Slice :=
  if lo ≤ hi ∧ hi ≤ s.cap then
    pure ⟨((s.elems ++ s.spare).drop lo).take (hi - lo),
      ((s.elems ++ s.spare).drop lo).drop (hi - lo)⟩
  else throw .panic

/-- `s[lo:]`. -/
def sliceFrom (s : Slice) (lo : Nat) : Go ε Slice := s.slice lo s.len

/-- `s[:hi]`. -/
def sliceTo (s : Slice) (hi : Nat) : Go ε Slice := s.slice 0 hi

@[simp] theorem len_ofList (p : List UInt8) : (ofList p).len = p.length := rfl
@[simp] theorem elems_ofList (p : List UInt8) : (ofList p).elems = p := rfl
@[simp] theorem spare_ofList (p : List UInt8) : (ofList p).spare = [] := rfl
@[simp] theorem elems_nil : nil.elems = [] := rfl
@[simp] theorem spare_nil : nil.spare = [] := rfl
@[simp] theorem len_nil : nil.len = 0 := rfl

theorem get_of_lt {s : Slice} {i : Nat} (h : i < s.len) :
    (s.get i : Go ε UInt8) = .ok s.elems[i] := dif_pos h

theorem get_of_le {s : Slice} {i : Nat} (h : s.len ≤ i) : (s.get i : Go ε UInt8) = .error .panic :=
  dif_neg (Nat.not_lt.mpr h)

theorem slice_of_le {s : Slice} {lo hi : Nat} (h : lo ≤ hi) (hc : hi ≤ s.cap) :
    (s.slice lo hi : Go ε Slice) = .ok ⟨((s.elems ++ s.spare).drop lo).take (hi - lo),
      ((s.elems ++ s.spare).drop lo).drop (hi - lo)⟩ := if_pos ⟨h, hc⟩

/-- Going past the capacity is the one way a slice expression panics. -/
theorem slice_of_cap_lt {s : Slice} {lo hi : Nat} (hc : s.cap < hi) :
    (s.slice lo hi : Go ε Slice) = .error .panic := if_neg (by omega)

theorem sliceFrom_of_le {s : Slice} {lo : Nat} (h : lo ≤ s.len) :
    (s.sliceFrom lo : Go ε Slice) = .ok ⟨s.elems.drop lo, s.spare⟩ := by
  rw [sliceFrom, slice_of_le h (by simp [len, cap])]
  simp only [len] at h ⊢
  simp [List.drop_append_of_le_length h, List.take_append_eq_append_take, Nat.sub_eq_zero_of_le,
    List.drop_append_eq_append_drop]

/-- Cutting a frame with no spare capacity keeps what was cut off as spare. -/
theorem sliceTo_ofList {p : List UInt8} {hi : Nat} (h : hi ≤ p.length) :
    ((ofList p).sliceTo hi : Go ε Slice) = .ok ⟨p.take hi, p.drop hi⟩ := by
  rw [sliceTo, slice_of_le (s := ofList p) (Nat.zero_le hi) (by simpa [cap] using h)]
  simp [ofList]

theorem sliceFrom_ofList {p : List UInt8} {lo : Nat} (h : lo ≤ p.length) :
    ((ofList p).sliceFrom lo : Go ε Slice) = .ok (ofList (p.drop lo)) := by
  rw [sliceFrom, slice_of_le (s := ofList p) (by simpa using h) (by simp [cap])]
  simp [ofList, len, Nat.add_sub_cancel' h, List.take_of_length_le]

end Slice

/-- `copy(buf[off:], src)`: overwrite `buf` from `off` on with as much of `src`
as fits. -/
def copyAt (buf : List UInt8) (off : Nat) (src : List UInt8) : List UInt8 :=
  buf.take off ++ (src.take (buf.length - off) ++ (buf.drop off).drop src.length)

theorem copyAt_append {pre mid post src : List UInt8} (h : src.length = mid.length) :
    copyAt (pre ++ mid ++ post) pre.length src = pre ++ src ++ post := by
  simp [copyAt, h, List.take_of_length_le (show src.length ≤ mid.length + post.length by omega),
    List.drop_append_eq_append_drop]

@[simp] theorem length_copyAt {buf src : List UInt8} {off : Nat} (h : off ≤ buf.length) :
    (copyAt buf off src).length = buf.length := by
  simp [copyAt, List.length_take]
  omega

end DcHub.Adc
