/-
Recognisers for source text.

Like a line grammar, a recogniser is an ordered-choice grammar: greedy, without returning
into a part that has matched.  Beyond that it remembers where reading came to a halt.
Every attempt that fails leaves a failure at the place it failed, whether the attempt is
abandoned by a choice, ends a repetition or fails for good, and of all failures the
furthest is kept.  At the same place the failures are merged, and the first one with a
fault of its own names it.

So a reply has two halves: the furthest failure, and the outcome if there is one.  Merging
failures is associative with no failure as its unit, which makes recognisers a lawful
monad.

A grammar that refers to itself is the limit of its unrollings, and `recursive` unrolls
it once more than the text has characters.  For a grammar that consumes something before
it comes back to itself that is as good as for ever.
-/
import ClassModel.Source.Input
import ClassModel.Text.Identifier

namespace ClassModel

/-- A fault that the grammar has words for. -/
inductive SyntaxFault where
  /-- A reserved word where a name should be. -/
  | unexpectedKeyword (word : String)
  /-- A word that is no modifier. -/
  | notModifier (word : String)
  /-- A word that names no primitive type. -/
  | notPrimitive (word : String)
  /-- A primitive or array type where a class type should be. -/
  | notClassType (type : String)
  deriving DecidableEq, Inhabited, Repr

namespace SyntaxFault

/-- A word of the source between grave accents. -/
def accented (w : String) : String :=
  "\u0060" ++ w ++ "\u0060"

/-- The words for a fault. -/
def message : SyntaxFault → String
  | unexpectedKeyword w => "unexpected keyword " ++ accented w
  | notModifier w => "expected modifier, found " ++ accented w
  | notPrimitive w => "expected primitive type, found " ++ accented w
  | notClassType t => "expected class type, found " ++ accented t

end SyntaxFault

/-- A place where an attempt failed, by the number of characters left there. -/
structure Failure where
  remaining : Nat
  fault : Option SyntaxFault := none
  deriving DecidableEq, Repr

namespace Failure

/-- The further of two failures in the order of their occurrence; at the same place the
earlier fault counts. -/
def merge : Option Failure → Option Failure → Option Failure
  | none, f => f
  | f, none => f
  | some f, some g =>
      if f.remaining < g.remaining then some f
      else if g.remaining < f.remaining then some g
      else some { f with fault := f.fault.or g.fault }

@[simp]
theorem merge_none_left (f : Option Failure) : merge none f = f := rfl

@[simp]
theorem merge_none_right (f : Option Failure) : merge f none = f := by
  cases f <;> rfl

theorem merge_assoc (f g h : Option Failure) : merge (merge f g) h = merge f (merge g h) := by
  cases f <;> cases g <;> cases h <;> grind [merge]

end Failure

/-- What a recogniser answers. -/
structure Reply (α : Type) where
  /-- The furthest failure met on the way. -/
  failure : Option Failure
  /-- The value and the text after it, unless the recogniser failed. -/
  outcome : Option (α × Input)

/-- An ordered-choice grammar that remembers its furthest failure. -/
def Recogniser (α : Type) := Input → Reply α

namespace Recogniser

variable {α β : Type}

/-- A reply with an earlier failure taken into account. -/
def after (f : Option Failure) (r : Reply α) : Reply α :=
  { r with failure := Failure.merge f r.failure }

/-- Fail here, with a fault if there are words for it. -/
def fail (fault : Option SyntaxFault) : Recogniser α :=
  fun i => ⟨some { remaining := i.size, fault }, none⟩

instance : Monad Recogniser where
  pure a := fun i => ⟨none, some (a, i)⟩
  bind p f := fun i =>
    match p i with
    | ⟨e, none⟩ => ⟨e, none⟩
    | ⟨e, some (a, j)⟩ => after e (f a j)

/-- The second grammar where the first one fails. -/
def orElse (p : Recogniser α) (q : Unit → Recogniser α) : Recogniser α :=
  fun i =>
    match p i with
    | ⟨e, none⟩ => after e (q () i)
    | r => r

instance : OrElse (Recogniser α) := ⟨orElse⟩

/-- A part that may be missing. -/
def optional (p : Recogniser α) : Recogniser (Option α) :=
  fun i =>
    match p i with
    | ⟨e, none⟩ => ⟨e, some (none, i)⟩
    | ⟨e, some (a, j)⟩ => ⟨e, some (some a, j)⟩

/-- A part as often as it matches; it must consume something each time. -/
def many (p : Recogniser α) (i : Input) : Reply (List α) :=
  match p i with
  | ⟨e, none⟩ => ⟨e, some ([], i)⟩
  | ⟨e, some (a, j)⟩ =>
      if j.size < i.size then
        let r := many p j
        ⟨Failure.merge e r.failure, r.outcome.map fun (as, k) => (a :: as, k)⟩
      else ⟨e, none⟩
termination_by i.size

/-- One character that satisfies a condition. -/
def satisfy (p : Char → Bool) : Recogniser Char :=
  fun i =>
    match i.next? with
    | some (c, j) => if p c then ⟨none, some (c, j)⟩ else fail none i
    | none => fail none i

/-- The longest run of characters that satisfy a condition.  It ends with a failure. -/
def run (p : Char → Bool) : Recogniser (List Char) :=
  fun i =>
    let (s, j) := i.span p
    ⟨some { remaining := j.size }, some (s, j)⟩

/-- A given text, which fails at its first character that differs. -/
def literal : List Char → Recogniser Unit
  | [] => pure ()
  | c :: r => do
      let _ ← satisfy (· == c)
      literal r

/-- The end of the text. -/
def done : Recogniser Unit :=
  fun i =>
    match i.next? with
    | none => ⟨none, some ((), i)⟩
    | some _ => fail none i

/-- Go on only if something does not follow here.  What fails on the way to finding out
counts for nothing. -/
def notFollowedBy (p : Recogniser α) : Recogniser Unit :=
  fun i =>
    match (p i).outcome with
    | none => ⟨none, some ((), i)⟩
    | some _ => fail none i

/-- A part with a check.  A part that fails the check is a failure where the part began, and
the failures inside it count for nothing. -/
def check (p : Recogniser α) (f : α → Except (Option SyntaxFault) β) : Recogniser β :=
  fun i =>
    match p i with
    | ⟨e, none⟩ => ⟨e, none⟩
    | ⟨e, some (a, j)⟩ =>
        match f a with
        | .ok b => ⟨e, some (b, j)⟩
        | .error fault => fail fault i

/-- A part, a separator and so on, at least once.  A separator without a part behind it is
left alone. -/
def sepBy1 (p : Recogniser α) (separator : Recogniser Unit) : Recogniser (List α) := do
  let first ← p
  let others ← many do
    separator
    p
  return first :: others

/-- A part, a separator and so on, possibly nothing. -/
def sepBy (p : Recogniser α) (separator : Recogniser Unit) : Recogniser (List α) := do
  let parts ← optional (sepBy1 p separator)
  return parts.getD []

/-- An unrolling of a grammar that refers to itself. -/
def unroll (f : Recogniser α → Recogniser α) : Nat → Recogniser α
  | 0 => fun _ => ⟨none, none⟩
  | n + 1 => fun i => f (unroll f n) i

/-- A grammar that refers to itself. -/
def recursive (f : Recogniser α → Recogniser α) : Recogniser α :=
  fun i => unroll f (i.size + 1) i

/-! ### Laws -/

theorem after_after (f g : Option Failure) (r : Reply α) :
    after f (after g r) = after (Failure.merge f g) r := by
  simp [after, Failure.merge_assoc]

theorem bind_apply (p : Recogniser α) (f : α → Recogniser β) (i : Input) :
    (p >>= f) i =
      match p i with
      | ⟨e, none⟩ => ⟨e, none⟩
      | ⟨e, some (a, j)⟩ => after e (f a j) := rfl

instance : LawfulMonad Recogniser := LawfulMonad.mk' Recogniser
  (fun p => by
    funext i
    show (p >>= fun a => pure a) i = p i
    rw [bind_apply]
    rcases p i with ⟨e, _ | ⟨a, j⟩⟩
    · rfl
    · simp [after, pure])
  (fun a f => by
    funext i
    rfl)
  (fun p f g => by
    funext i
    simp only [bind_apply]
    rcases p i with ⟨e, _ | ⟨a, j⟩⟩
    · rfl
    · show (match after e (f a j) with
        | ⟨e', none⟩ => ⟨e', none⟩
        | ⟨e', some (b, k)⟩ => after e' (g b k)) =
        after e (match f a j with
          | ⟨e', none⟩ => ⟨e', none⟩
          | ⟨e', some (b, k)⟩ => after e' (g b k))
      generalize f a j = r
      rcases r with ⟨e', _ | ⟨b, k⟩⟩
      · rfl
      · simp only [after, Failure.merge_assoc])

end Recogniser

end ClassModel
