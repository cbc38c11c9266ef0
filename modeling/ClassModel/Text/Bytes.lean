/-
Parts of a text by their bytes.

A part of a text is given by how many bytes stand in front of it and how many are in it, as
the text is encoded.  A character belongs to a part if all of its bytes do.
-/
namespace ClassModel

/-- How many bytes characters take. -/
def byteCount : List Char → Nat
  | [] => 0
  | c :: r => c.utf8Size + byteCount r

/-- What follows so many bytes. -/
def dropBytes : Nat → List Char → List Char
  | _, [] => []
  | n, c :: r => if n = 0 then c :: r else dropBytes (n - c.utf8Size) r

/-- The characters within so many bytes. -/
def takeBytes : Nat → List Char → List Char
  | _, [] => []
  | n, c :: r => if c.utf8Size ≤ n then c :: takeBytes (n - c.utf8Size) r else []

/-- What follows the bytes of a text is what follows the text. -/
@[simp]
theorem dropBytes_byteCount (s r : List Char) : dropBytes (byteCount s) (s ++ r) = r := by
  induction s with
  | nil => cases r <;> simp [byteCount, dropBytes]
  | cons c s ih =>
      have := c.utf8Size_pos
      simp only [byteCount, List.cons_append, dropBytes]
      rw [if_neg (by omega), Nat.add_sub_cancel_left, ih]

/-- The characters within the bytes of a text are the text. -/
@[simp]
theorem takeBytes_byteCount (s r : List Char) : takeBytes (byteCount s) (s ++ r) = s := by
  induction s with
  | nil =>
      cases r with
      | nil => rfl
      | cons c r => simp [byteCount, takeBytes, Nat.ne_of_gt c.utf8Size_pos]
  | cons c s ih =>
      simp only [byteCount, List.cons_append, takeBytes]
      rw [if_pos (by omega), Nat.add_sub_cancel_left, ih]

/-- A part of a text. -/
structure ByteRange where
  /-- How many bytes stand in front of it. -/
  start : Nat
  /-- How many bytes are in it. -/
  size : Nat
  deriving DecidableEq, Inhabited, Repr

namespace ByteRange

/-- Where the part ends. -/
def stop (r : ByteRange) : Nat :=
  r.start + r.size

/-- The part of a text. -/
def cut (r : ByteRange) (text : List Char) : List Char :=
  takeBytes r.size (dropBytes r.start text)

/-- Cutting finds what stands between two other parts. -/
theorem cut_append (front s behind : List Char) :
    cut ⟨byteCount front, byteCount s⟩ (front ++ (s ++ behind)) = s := by
  simp [cut]

end ByteRange

end ClassModel
