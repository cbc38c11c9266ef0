/-
The outline of a diagram.

Before any member is looked at, the lines of a diagram are sorted: each declaration
takes its header and its body, and every other line stands alone.  A standalone line is
then an inline member, a composition or a plain association, in this order of preference,
or it is not recognised.

Bodies swallow their lines, so a line inside a body is never mistaken for a declaration
or a relation.  The sorting ends because the lines behind a body are an end of the lines
behind its header.
-/
import ClassModel.Diagram.Body
import ClassModel.Diagram.Header
import ClassModel.Diagram.Member
import ClassModel.Diagram.Relation

namespace ClassModel

/-- A declaration with the lines of its body. -/
structure Block where
  header : Header
  /-- The modifiers of the header line. -/
  modifiers : Modifiers
  body : List Line
  deriving DecidableEq, Repr

/-- The declarations of a diagram and the lines outside them. -/
structure Outline where
  blocks : List Block := []
  standalone : List Line := []
  deriving DecidableEq, Repr

/-- Sort the lines of a diagram. -/
def Outline.ofLines : List Line → Outline
  | [] => {}
  | line :: rest =>
      match header? line.text with
      | none =>
          let o := ofLines rest
          { o with standalone := line :: o.standalone }
      | some header =>
          match _h : collectBody line header.body rest with
          | some (body, after) =>
              let o := ofLines after
              { o with blocks := ⟨header, line.modifiers, body⟩ :: o.blocks }
          | none =>
              let o := ofLines rest
              { o with blocks := ⟨header, line.modifiers, []⟩ :: o.blocks }
termination_by lines => lines.length
decreasing_by
  · simp
  · exact Nat.lt_succ_of_le (length_collectBody _h)
  · simp

/-- What a line outside all bodies says. -/
inductive Standalone where
  | inline (member : InlineMember) (modifiers : Modifiers)
  | composition (relation : Relation)
  | plain (relation : Relation)
  | unrecognized (text : List Char)
  deriving DecidableEq, Repr

/-- Read a line outside all bodies. -/
def Standalone.ofLine (line : Line) : Standalone :=
  match inlineMember? line.text with
  | some m => inline m line.modifiers
  | none =>
      match composition? line.text with
      | some r => composition r
      | none =>
          match plainAssociation? line.text with
          | some r => plain r
          | none => unrecognized line.text

end ClassModel
