/-
What a tracker knows.

Everything that happens to a tracker is a note: a name was mentioned, or a name was defined.
After any list of notes it holds the defined names in the order of their first definition and,
in the order of their first mention, the mentioned names that are defined nowhere in the list.
Whether a definition comes before or behind a mention makes no difference.

One note keeps this, so all notes together do.
-/
import ClassModel.Schema.TypeTracker

namespace ClassModel.Schema

/-- Something that is noted while a schema is written. -/
inductive Note where
  /-- A name occurs as a type. -/
  | mention (name : String)
  /-- A name is given to a message or an enum. -/
  | define (name : String)
  deriving DecidableEq

/-! ### The names in a list of notes -/

/-- The mentioned names in order. -/
def mentions (notes : List Note) : List String :=
  notes.filterMap fun
    | .mention name => some name
    | .define _ => none

/-- The defined names in order. -/
def definitions (notes : List Note) : List String :=
  notes.filterMap fun
    | .mention _ => none
    | .define name => some name

theorem mentions_append (before after : List Note) :
    mentions (before ++ after) = mentions before ++ mentions after :=
  List.filterMap_append

theorem definitions_append (before after : List Note) :
    definitions (before ++ after) = definitions before ++ definitions after :=
  List.filterMap_append

@[simp]
theorem mem_mentions {notes : List Note} {name : String} :
    name ∈ mentions notes ↔ Note.mention name ∈ notes := by
  rw [mentions, List.mem_filterMap]
  constructor
  · rintro ⟨n | n, hn, h⟩
    · rwa [← Option.some.inj h]
    · cases h
  · exact fun h => ⟨_, h, rfl⟩

@[simp]
theorem mem_definitions {notes : List Note} {name : String} :
    name ∈ definitions notes ↔ Note.define name ∈ notes := by
  rw [definitions, List.mem_filterMap]
  constructor
  · rintro ⟨n | n, hn, h⟩
    · cases h
    · rwa [← Option.some.inj h]
  · exact fun h => ⟨_, h, rfl⟩

theorem eraseDups_append_singleton (names : List String) (name : String) :
    (names ++ [name]).eraseDups =
      if name ∈ names then names.eraseDups else names.eraseDups ++ [name] := by
  rw [List.eraseDups_append]
  by_cases h : name ∈ names <;> simp [List.removeAll, List.eraseDups_cons, h]

/-! ### One note and all notes -/

namespace TypeTracker

/-- Take down a note. -/
def note (t : TypeTracker) : Note → TypeTracker
  | .mention name => t.mention name
  | .define name => t.define name

/-- Take down several notes in order. -/
def noteAll (t : TypeTracker) (notes : List Note) : TypeTracker :=
  notes.foldl note t

theorem noteAll_append (t : TypeTracker) (before after : List Note) :
    t.noteAll (before ++ after) = (t.noteAll before).noteAll after :=
  List.foldl_append

/-- A tracker holds what a list of notes says. -/
structure Tracks (notes : List Note) (t : TypeTracker) : Prop where
  defined : t.defined = (definitions notes).eraseDups
  pending : t.pending = (mentions notes).eraseDups.filter (· ∉ definitions notes)

variable {notes : List Note} {t : TypeTracker}

theorem tracks_nil : Tracks [] {} :=
  ⟨rfl, rfl⟩

/-- A mention waits for its definition unless the name is known already. -/
theorem Tracks.mention (h : Tracks notes t) (name : String) :
    Tracks (notes ++ [Note.mention name]) (t.mention name) := by
  have hdefinitions : definitions (notes ++ [Note.mention name]) = definitions notes := by
    rw [definitions_append]
    exact List.append_nil _
  have hmentions : mentions (notes ++ [Note.mention name]) = mentions notes ++ [name] :=
    mentions_append _ _
  constructor
  · rw [defined_mention, hdefinitions, h.defined]
  · rw [hdefinitions, hmentions, eraseDups_append_singleton, TypeTracker.mention, h.defined,
      h.pending]
    by_cases hd : Note.define name ∈ notes <;> by_cases hm : Note.mention name ∈ notes <;>
      simp [hd, hm, h.pending]

/-- A definition settles a name for good. -/
theorem Tracks.define (h : Tracks notes t) (name : String) :
    Tracks (notes ++ [Note.define name]) (t.define name) := by
  have hdefinitions : definitions (notes ++ [Note.define name]) = definitions notes ++ [name] :=
    definitions_append _ _
  have hmentions : mentions (notes ++ [Note.define name]) = mentions notes := by
    rw [mentions_append]
    exact List.append_nil _
  constructor
  · rw [hdefinitions, eraseDups_append_singleton, TypeTracker.define, h.defined]
    simp only [List.mem_eraseDups]
  · rw [hdefinitions, hmentions, TypeTracker.define, h.pending, List.filter_filter]
    refine List.filter_congr fun n _ => ?_
    simp [and_comm]

theorem Tracks.note (h : Tracks notes t) : ∀ n : Note, Tracks (notes ++ [n]) (t.note n)
  | .mention name => h.mention name
  | .define name => h.define name

theorem Tracks.noteAll (h : Tracks notes t) (more : List Note) :
    Tracks (notes ++ more) (t.noteAll more) := by
  induction more generalizing notes t with
  | nil => rwa [List.append_nil]
  | cons n more ih =>
      have hmore := ih (h.note n)
      rwa [List.append_assoc, List.singleton_append] at hmore

/-- **A new tracker holds what the notes say, whatever their order.** -/
theorem tracks_noteAll (notes : List Note) : Tracks notes (noteAll {} notes) :=
  tracks_nil.noteAll notes

/-- A name that was mentioned is defined or pending. -/
theorem Tracks.of_mention (h : Tracks notes t) {name : String}
    (hname : Note.mention name ∈ notes) : Note.define name ∈ notes ∨ name ∈ t.pending := by
  by_cases hd : Note.define name ∈ notes
  · exact Or.inl hd
  · refine Or.inr ?_
    rw [h.pending, List.mem_filter, List.mem_eraseDups, mem_mentions]
    exact ⟨hname, by simpa using hd⟩

end TypeTracker

end ClassModel.Schema
