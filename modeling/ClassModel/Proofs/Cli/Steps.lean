/-
Commands in a sandbox.

A command consists of steps, each of which may end it.  `Leaves` says that a step does not: in
a sandbox it comes to a value, and afterwards the files are those that are given.  Steps that
follow each other leave what the last of them leaves, and logging and remarks leave everything.

A command that goes through in this way is a command line that succeeds, whatever is asked of
the log.
-/
import ClassModel.Cli.Run

namespace ClassModel

section Steps

variable {α β : Type} {filter : LogFilter} {s : Sandbox} {t u : FileTree}

/-- In a sandbox a step comes to a value.  It leaves files and does not touch the input. -/
def Leaves (filter : LogFilter) (s : Sandbox) (x : Step (StateM Sandbox) α) (a : α)
    (t : FileTree) : Prop :=
  ∃ s', (x.run filter).run.run s = (.ok a, s') ∧ s'.files = t ∧ s'.input = s.input

theorem leaves_pure (a : α) : Leaves filter s (pure a) a s.files :=
  ⟨s, rfl, rfl, rfl⟩

theorem Leaves.bind {x : Step (StateM Sandbox) α} {f : α → Step (StateM Sandbox) β} {a : α} {b : β}
    (hx : Leaves filter s x a t)
    (hf : ∀ s', s'.files = t → s'.input = s.input → Leaves filter s' (f a) b u) :
    Leaves filter s (x >>= f) b u := by
  obtain ⟨s₁, hrun, hfiles, hinput⟩ := hx
  obtain ⟨s₂, hrun', hfiles', hinput'⟩ := hf s₁ hfiles hinput
  refine ⟨s₂, ?_, hfiles', hinput'.trans hinput⟩
  rw [ReaderT.run_bind, ExceptT.run_bind, StateT.run_bind, hrun]
  exact hrun'

theorem leaves_service {x : StateM Sandbox α} {a : α} (s' : Sandbox) (h : x.run s = (a, s'))
    (hinput : s'.input = s.input) : Leaves filter s (service x) a s'.files := by
  refine ⟨s', ?_, rfl, hinput⟩
  show ((ExceptT.lift x).run.run s) = _
  rw [ExceptT.run_lift, StateT.run_map, h]
  rfl

theorem leaves_log (reports : List Report) :
    Leaves filter s (reports.forM fun r => service (Host.log r.event)) () s.files := by
  induction reports generalizing s with
  | nil => exact leaves_pure ()
  | cons r rs ih =>
      refine (leaves_service { s with log := s.log ++ [r.event] } rfl rfl).bind ?_
      rintro s' hfiles -
      rw [← hfiles]
      exact ih

/-- Events go to the log and nowhere else. -/
theorem leaves_traced (x : Traced α) : Leaves filter s (traced x) x.value s.files := by
  have hread : Leaves filter s (read : Step (StateM Sandbox) LogFilter) filter s.files :=
    ⟨s, rfl, rfl, rfl⟩
  refine hread.bind fun s₁ h₁ _ => ?_
  rw [← h₁]
  refine (leaves_log (x.reports.filter filter.lets)).bind fun s₂ h₂ _ => ?_
  rw [← h₂]
  exact leaves_pure x.value

theorem leaves_attempt {x : StateM Sandbox (Except FileError α)} {a : α} (s' : Sandbox)
    (h : x.run s = (.ok a, s')) (hinput : s'.input = s.input) (error : FileError → RunError) :
    Leaves filter s (attempt x error) a s'.files := by
  refine (leaves_service s' h hinput).bind fun s₁ h₁ _ => ?_
  rw [← h₁]
  exact leaves_pure a

theorem leaves_remark (verbose : Bool) (line : String) :
    Leaves filter s (remark verbose line) () s.files := by
  cases verbose with
  | false => exact leaves_pure ()
  | true => exact leaves_service { s with notes := s.notes ++ [line] } rfl rfl

/-- The text that a command finds as its input. -/
def Sandbox.text? (s : Sandbox) (input : Option String) : Except FileError String :=
  match input.filter (· ≠ "-") with
  | some path => s.files.readFile path
  | none => .ok s.input

theorem Sandbox.text?_congr {s' : Sandbox} (hfiles : s'.files = s.files)
    (hinput : s'.input = s.input) (input : Option String) : s'.text? input = s.text? input := by
  rw [text?, text?, hfiles, hinput]

theorem leaves_readText {input : Option String} {text : String} (h : s.text? input = .ok text) :
    Leaves filter s (readText input) text s.files := by
  unfold Sandbox.text? at h
  unfold readText
  cases hin : input.filter (· ≠ "-") with
  | some path =>
      simp only [hin] at h ⊢
      have hrun : (Host.readFile path : StateM Sandbox (Except FileError String)).run s =
          (s.files.readFile path, s) := rfl
      rw [h] at hrun
      exact leaves_attempt s hrun rfl _
  | none =>
      simp only [hin] at h ⊢
      cases h
      exact leaves_service s rfl rfl

/-! ### Command lines -/

/-- A command that goes well is a command line that succeeds. -/
theorem exists_runArguments {args : List String} {env : Environment} {i : Invocation}
    {t : FileTree} (hargs : Invocation.ofArguments args = .ok i)
    (h : ∀ (filter : LogFilter) (s' : Sandbox), s'.files = s.files → s'.input = s.input →
      Leaves filter s' (i.command.perform i.verbose) () t) :
    ∃ s', (runArguments args env : StateM Sandbox Nat).run s = (0, s') ∧ s'.files = t := by
  have hperform : ∀ (filter : LogFilter) (s₁ : Sandbox), s₁.files = s.files →
      s₁.input = s.input → ∃ s', (i.perform filter : StateM Sandbox Bool).run s₁ = (true, s') ∧
        s'.files = t := by
    intro filter s₁ hfiles hinput
    have hwhole : Leaves filter s₁ (remark i.verbose ("umlbridge v" ++ programVersion) >>=
        fun _ => i.command.perform i.verbose) () t :=
      (leaves_remark i.verbose _).bind fun s₂ h₂ h₂' =>
        h filter s₂ (h₂.trans hfiles) (h₂'.trans hinput)
    obtain ⟨s₃, hrun, hfiles₃, -⟩ := hwhole
    refine ⟨s₃, ?_, hfiles₃⟩
    unfold Invocation.perform
    rw [StateT.run_bind, hrun]
    rfl
  have hrun : ∃ s', (i.run env : StateM Sandbox Bool).run s = (true, s') ∧ s'.files = t := by
    unfold Invocation.run
    cases hformat : logFormat env i.format with
    | ok _ => exact hperform _ s rfl rfl
    | error name =>
        obtain ⟨s', hr, hf⟩ := hperform .off { s with notes := s.notes ++ [
          "Warning: Failed to initialize logging: Invalid log format: " ++
            LogFormat.unknownMessage name] } rfl rfl
        exact ⟨s', hr, hf⟩
  obtain ⟨s', hr, hf⟩ := hrun
  refine ⟨s', ?_, hf⟩
  unfold runArguments
  rw [hargs]
  show StateT.run ((i.run env : StateM Sandbox Bool) >>= fun ok => pure (if ok then 0 else 1)) s = _
  rw [StateT.run_bind, hr]
  rfl

end Steps

end ClassModel
