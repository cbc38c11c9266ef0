/-
The names that a diagram declares.

Each declaration registers one type under the name in its header, and later lines only add to
types that are there.  So the classes of the model that is read are those whose headers were
found, in the order of their first headers, and a second header of the same name adds none.
The same holds of interfaces and of enums.

Each of the three is a map that a declaration either leaves alone or inserts into, and that no
standalone line takes a key from or gives one to.
-/
import ClassModel.Proofs.Overwriting
import ClassModel.Proofs.Diagram.ReadModels

namespace ClassModel

/-- What a header declares, without its clauses. -/
inductive Declared where
  | ofClass (name : String)
  | ofInterface (name : String)
  | ofEnum (name : String)
  deriving DecidableEq, Repr

namespace Declared

/-- The name of a declared class. -/
def className? : Declared → Option String
  | ofClass name => some name
  | _ => none

/-- The name of a declared interface. -/
def interfaceName? : Declared → Option String
  | ofInterface name => some name
  | _ => none

/-- The name of a declared enum. -/
def enumName? : Declared → Option String
  | ofEnum name => some name
  | _ => none

end Declared

/-- What a header declares. -/
def Header.declared (h : Header) : Declared :=
  match h.kind with
  | .ofClass .. => .ofClass h.name
  | .ofInterface => .ofInterface h.name
  | .ofEnum => .ofEnum h.name

/-! ### Declarations -/

theorem Class.name_readLine (c : Class) (l : Line) : (c.readLine l).value.name = c.name := by
  unfold Class.readLine
  cases memberLine? l.text with
  | none => rfl
  | some member => cases member <;> rfl

theorem Interface.name_readLine (i : Interface) (l : Line) : (i.readLine l).value.name = i.name := by
  unfold Interface.readLine
  cases methodLine? l.text <;> rfl

theorem Enum.name_readLine (e : Enum) (l : Line) : (e.readLine l).name = e.name := by
  unfold Enum.readLine
  cases constantLine? l.text <;> rfl

theorem foldl_preserves {α β γ : Type} {f : α → β → α} {g : α → γ} (h : ∀ a b, g (f a b) = g a)
    (bs : List β) (a : α) : g (bs.foldl f a) = g a := by
  induction bs generalizing a with
  | nil => rfl
  | cons b bs ih => rw [List.foldl_cons, ih, h]

namespace Block

/-- The class that a declaration registers. -/
def class? (b : Block) : Option Class :=
  match b.header.kind with
  | .ofClass isAbstract superclass interfaces =>
      some (b.body.foldlM Class.readLine
        { name := b.header.name, superclass, interfaces
          isAbstract := isAbstract || b.modifiers.isAbstract }).value
  | _ => none

/-- The interface that a declaration registers. -/
def interface? (b : Block) : Option Interface :=
  match b.header.kind with
  | .ofInterface => some (b.body.foldlM Interface.readLine { name := b.header.name }).value
  | _ => none

/-- The enum that a declaration registers. -/
def enum? (b : Block) : Option Enum :=
  match b.header.kind with
  | .ofEnum => some (b.body.foldl Enum.readLine { name := b.header.name })
  | _ => none

theorem map_name_class? (b : Block) : b.class?.map Class.name = b.header.declared.className? := by
  unfold class? Header.declared
  cases b.header.kind with
  | ofClass isAbstract superclass interfaces =>
      rw [Option.map_some, Traced.value_foldlM, foldl_preserves Class.name_readLine]
      rfl
  | ofInterface => rfl
  | ofEnum => rfl

theorem map_name_interface? (b : Block) :
    b.interface?.map Interface.name = b.header.declared.interfaceName? := by
  unfold interface? Header.declared
  cases b.header.kind with
  | ofClass isAbstract superclass interfaces => rfl
  | ofInterface =>
      rw [Option.map_some, Traced.value_foldlM, foldl_preserves Interface.name_readLine]
      rfl
  | ofEnum => rfl

theorem map_name_enum? (b : Block) : b.enum?.map Enum.name = b.header.declared.enumName? := by
  unfold enum? Header.declared
  cases b.header.kind with
  | ofClass isAbstract superclass interfaces => rfl
  | ofInterface => rfl
  | ofEnum =>
      rw [Option.map_some, foldl_preserves Enum.name_readLine]
      rfl

end Block

/-! ### One map of the model -/

namespace Model

/-- A map of the model that a declaration leaves alone or inserts into, and whose keys no
standalone line changes. -/
structure Registers {α : Type} (part : Model → OrderedMap α) (entity? : Block → Option α)
    (key : α → String) : Prop where
  readBlock : ∀ m b, part (m.readBlock b).value =
    (entity? b).elim (part m) fun v => (part m).insert (key v) v
  readInline : ∀ m s, (part (m.readInline s).value).keys = (part m).keys
  addAssociation : ∀ m a, part (m.addAssociation a) = part m

namespace Registers

variable {α : Type} {part : Model → OrderedMap α} {entity? : Block → Option α} {key : α → String}

/-- The declarations insert what they declare, one after the other. -/
theorem foldl_readBlock (h : Registers part entity? key) (bs : List Block) (m : Model) :
    part (bs.foldl (fun m b => (m.readBlock b).value) m) =
      (bs.filterMap entity?).foldl (fun acc v => acc.insert (key v) v) (part m) := by
  induction bs generalizing m with
  | nil => rfl
  | cons b bs ih =>
      rw [List.foldl_cons, ih, h.readBlock, List.filterMap_cons]
      cases entity? b <;> rfl

/-- **The keys of the map are the declared names, each in the place of its first
declaration.** -/
theorem keys_readOutline (h : Registers part entity? key) (m : Model) (o : Outline) :
    (part (m.readOutline o).value).keys =
      (part m).keys ++
        (((o.blocks.filterMap entity?).map key).filter (· ∉ (part m).keys)).eraseDups := by
  have hcomposition : ∀ m s, part (readComposition m s) = part m := by
    intro m s
    cases s with
    | composition r => exact h.addAssociation m r.association
    | inline | plain | unrecognized => rfl
  have hplain : ∀ m s, part (m.readPlain s).value = part m := by
    intro m s
    cases s with
    | plain r => exact h.addAssociation m r.association
    | inline | composition | unrecognized => rfl
  rw [readOutline, Traced.value_bind, Traced.value_bind, Traced.value_bind, Traced.value_bind,
    Traced.value_bind, Traced.value_pure, Traced.value_foldlM, Traced.value_foldlM,
    Traced.value_foldlM, foldl_preserves (g := part) hplain, foldl_preserves (g := part) hcomposition,
    foldl_preserves (g := fun m => (part m).keys) h.readInline, h.foldl_readBlock,
    OrderedMap.keys_foldl_insert]

end Registers

/-! ### The three maps -/

/-- The keys of the three maps are the same. -/
structure SameKeys (m m' : Model) : Prop where
  classes : m'.classes.keys = m.classes.keys
  interfaces : m'.interfaces.keys = m.interfaces.keys
  enums : m'.enums.keys = m.enums.keys

theorem SameKeys.refl (m : Model) : SameKeys m m :=
  ⟨rfl, rfl, rfl⟩

/-- An inline member changes the type that it is attached to, and no key. -/
theorem sameKeys_readInline (m : Model) (s : Standalone) : SameKeys m (m.readInline s).value := by
  cases s with
  | composition | plain | unrecognized => exact .refl m
  | inline l modifiers =>
      show SameKeys m (m.attach l modifiers).value
      rcases m.attach_cases l modifiers with hsame | ⟨a, -, hadd⟩ | ⟨f, -, hadd⟩
      · rw [hsame]
        exact .refl m
      · rw [addAttribute?_eq_some hadd]
        exact ⟨m.classes.keys_modify _ _, rfl, rfl⟩
      · rcases addMethod?_eq_some hadd with h | h <;> rw [h]
        · exact ⟨m.classes.keys_modify _ _, rfl, rfl⟩
        · exact ⟨rfl, m.interfaces.keys_modify _ _, rfl⟩

theorem registers_classes : Registers Model.classes Block.class? Class.name where
  readBlock := by
    intro m b
    unfold readBlock Block.class?
    cases b.header.kind <;> rfl
  readInline := fun m s => (m.sameKeys_readInline s).classes
  addAssociation := fun _ _ => rfl

theorem registers_interfaces : Registers Model.interfaces Block.interface? Interface.name where
  readBlock := by
    intro m b
    unfold readBlock Block.interface?
    cases b.header.kind <;> rfl
  readInline := fun m s => (m.sameKeys_readInline s).interfaces
  addAssociation := fun _ _ => rfl

theorem registers_enums : Registers Model.enums Block.enum? Enum.name where
  readBlock := by
    intro m b
    unfold readBlock Block.enum?
    cases b.header.kind <;> rfl
  readInline := fun m s => (m.sameKeys_readInline s).enums
  addAssociation := fun _ _ => rfl

end Model

/-! ### The names of a model -/

/-- Names of classes, of interfaces and of enums. -/
@[ext]
structure Names where
  classes : List String
  interfaces : List String
  enums : List String
  deriving DecidableEq, Repr

/-- The names of what a model holds, in order. -/
def Model.names (m : Model) : Names where
  classes := m.classes.values.map Class.name
  interfaces := m.interfaces.values.map Interface.name
  enums := m.enums.values.map Enum.name

/-- The names that an outline declares, each in the place of its first declaration. -/
def Outline.names (o : Outline) : Names where
  classes := ((o.blocks.map fun b => b.header.declared).filterMap Declared.className?).eraseDups
  interfaces :=
    ((o.blocks.map fun b => b.header.declared).filterMap Declared.interfaceName?).eraseDups
  enums := ((o.blocks.map fun b => b.header.declared).filterMap Declared.enumName?).eraseDups

theorem map_filterMap_blocks {α : Type} {entity? : Block → Option α} {key : α → String}
    {name? : Declared → Option String}
    (h : ∀ b, (entity? b).map key = name? b.header.declared) (bs : List Block) :
    (bs.filterMap entity?).map key = (bs.map fun b => b.header.declared).filterMap name? := by
  rw [List.map_filterMap, List.filterMap_map]
  exact congrArg (List.filterMap · bs) (funext h)

/-- **The model of a diagram has the names that its outline declares.** -/
theorem names_read (text : String) :
    (Diagram.read text).value.names =
      (Outline.ofLines (stripModifiers text.toList).value).names := by
  have hkeyed := (sound_read text).keyed
  have hread : (Diagram.read text).value =
      (Model.empty.readOutline (Outline.ofLines (stripModifiers text.toList).value)).value := rfl
  have hnew : ∀ names : List String, names.filter (· ∉ ([] : List String)) = names := fun names =>
    List.filter_eq_self.mpr fun _ _ => rfl
  unfold Model.names
  rw [OrderedMap.map_values hkeyed.classes, OrderedMap.map_values hkeyed.interfaces,
    OrderedMap.map_values hkeyed.enums, hread, Model.registers_classes.keys_readOutline,
    Model.registers_interfaces.keys_readOutline, Model.registers_enums.keys_readOutline,
    map_filterMap_blocks Block.map_name_class?, map_filterMap_blocks Block.map_name_interface?,
    map_filterMap_blocks Block.map_name_enum?]
  show Names.mk ([] ++ (List.filter (· ∉ ([] : List String)) _).eraseDups)
    ([] ++ (List.filter (· ∉ ([] : List String)) _).eraseDups)
    ([] ++ (List.filter (· ∉ ([] : List String)) _).eraseDups) = _
  rw [hnew, hnew, hnew]
  rfl

end ClassModel
