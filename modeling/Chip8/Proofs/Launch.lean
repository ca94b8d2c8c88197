import Chip8.CommandLine.Launch
import Chip8.Proofs.Document
import Chip8.Proofs.Request

namespace Chip8.CommandLine.Options

variable {σ : Type} {files : Files (StateM σ)} {fallback : RandomSource} {o : Options} {d d₁ d₂ : σ}
  {document : Option String} {as : List (Setting × Nat)} {e : LaunchError} {ready : Ready}

def assigned? (document : Option String) : Option (List (Setting × Nat)) :=
  document.elim (some []) fun text => Document.assignments? text.toList

theorem gives_of_assigned (h : assigned? document = some as) : Settings.Gives {} as (Settings.ofAssignments as) := by
  cases document with
  | none =>
      obtain rfl : [] = as := Option.some.inj h
      exact ⟨rfl, rfl, rfl, rfl, rfl⟩
  | some text => exact Settings.gives_ofAssignments h

theorem overlay_eq (o : Options) (s : Settings) :
    o.overlay s =
      { origin := o.origin.getD s.origin
        speed := o.speed.getD s.speed
        width := s.width
        height := s.height
        seed := o.seed.or s.seed } := by
  rw [overlay, Option.or_eq_orElse]
  rfl

section Boot

variable (h : assigned? document = some as)

include h

theorem read_document_eq : document.elim (.ok {}) Settings.ofDocument =
    (Settings.ofAssignments as).validate.map fun _ => Settings.ofAssignments as := by
  cases document with
  | none =>
      obtain rfl : [] = as := Option.some.inj h
      rfl
  | some text => exact Settings.ofDocument_of_some h

theorem boot_of_bad_file {e : SettingsError} (hfile : (Settings.ofAssignments as).validate = .error e) :
    o.boot fallback document = .error (.settings e) := by
  rw [boot, configure, read_document_eq h, hfile]
  rfl

theorem boot_of_bad_merge {e : SettingsError} (hfile : (Settings.ofAssignments as).validate = .ok ())
    (hmerged : (o.overlay (Settings.ofAssignments as)).validate = .error e) :
    o.boot fallback document = .error (.settings e) := by
  have hconfigure : o.configure document = .error e := by
    simp only [configure, read_document_eq h, hfile, Except.map, hmerged]
  rw [boot, hconfigure]

theorem boot_of_good_merge (hfile : (Settings.ofAssignments as).validate = .ok ())
    (hmerged : (o.overlay (Settings.ofAssignments as)).validate = .ok ()) :
    let merged := o.overlay (Settings.ofAssignments as)
    (∃ fresh, Machine.boot merged fallback = .ok fresh ∧ o.boot fallback document = .ok ⟨merged, fresh⟩) ∨
      Machine.boot merged fallback = .error .tooManyCells ∧ o.boot fallback document = .error .tooManyCells := by
  have hconfigure : o.configure document = .ok (o.overlay (Settings.ofAssignments as)) := by
    simp only [configure, read_document_eq h, hfile, Except.map, hmerged]
  intro merged
  by_cases hfits : Screen.Fits merged.width merged.height
  · have hboot := Machine.boot_eq hmerged hfits fallback
    refine .inl ⟨_, hboot, ?_⟩
    rw [boot, hconfigure]
    dsimp only
    rw [hboot]
  · have hboot := Machine.boot_of_not_fits hmerged hfits fallback
    refine .inr ⟨hboot, ?_⟩
    rw [boot, hconfigure]
    dsimp only
    rw [hboot]

end Boot

theorem openProgram_ne_settings (files : Files (StateM σ)) (o : Options) (d : σ) (e : SettingsError) :
    (o.openProgram files d).1 ≠ .error (.settings e) := by
  show (files.openBytes (o.rom.getD "") d).1.mapError LaunchError.system ≠ _
  cases (files.openBytes (o.rom.getD "") d).1 <;> nofun

section Launch

variable (hlog : o.createLog files d = (.ok (), d₁)) (hread : o.readDocument files d₁ = (.ok document, d₂))

include hlog hread

theorem launch_of_boot_error (hboot : o.boot fallback document = .error e) :
    (o.launch files fallback d).1 = .error e := by
  simp only [launch, bind, StateT.bind, hlog, hread, hboot]
  rfl

theorem launch_of_boot_ok (hboot : o.boot fallback document = .ok ready) :
    (o.launch files fallback d).1 = match (o.openProgram files d₂).1 with
      | .error e => .error e
      | .ok source =>
        match ready.machine.loadFrom source with
        | (.error e, _) => .error (.load e)
        | (.ok _, machine) => .ok { ready with machine } := by
  simp only [launch, bind, StateT.bind, hlog, hread, hboot]
  cases hopen : o.openProgram files d₂ with
  | mk opened d₃ =>
      cases opened with
      | error e => rfl
      | ok source =>
          cases hload : ready.machine.loadFrom source with
          | mk answer machine => cases answer <;> simp [hload] <;> rfl

theorem launch_ne_settings (hboot : o.boot fallback document = .ok ready) (e : SettingsError) :
    (o.launch files fallback d).1 ≠ .error (.settings e) := by
  rw [launch_of_boot_ok hlog hread hboot]
  cases hopen : (o.openProgram files d₂).1 with
  | error failure =>
      rintro heq
      obtain rfl := Except.error.inj heq
      exact openProgram_ne_settings files o d₂ e hopen
  | ok source =>
      dsimp only
      split <;> nofun

theorem launch_eq_ok_iff (hboot : o.boot fallback document = .ok ready) (ready' : Ready) :
    (o.launch files fallback d).1 = .ok ready' ↔ ready'.settings = ready.settings ∧
      ∃ source n, (o.openProgram files d₂).1 = .ok source ∧
        ready.machine.loadFrom source = (.ok n, ready'.machine) := by
  rw [launch_of_boot_ok hlog hread hboot]
  constructor
  · intro heq
    split at heq
    · cases heq
    · next source hopen =>
        split at heq
        · cases heq
        · next n machine hload =>
            obtain rfl := Except.ok.inj heq
            exact ⟨rfl, source, n, hopen, hload⟩
  · rintro ⟨hsettings, source, n, hopen, hload⟩
    rw [hopen]
    dsimp only
    rw [hload]
    dsimp only
    rw [← hsettings]

end Launch

theorem launch_settings (files : Files (StateM σ)) (fallback : RandomSource) (o : Options)
    (hlog : o.createLog files d = (.ok (), d₁)) (hread : o.readDocument files d₁ = (.ok document, d₂))
    (hassigned : assigned? document = some as) :
    ∃ file, Settings.Gives {} as file ∧
      let merged : Settings :=
        { origin := o.origin.getD file.origin
          speed := o.speed.getD file.speed
          width := file.width
          height := file.height
          seed := o.seed.or file.seed }
      (∀ e, (o.launch files fallback d).1 = .error (.settings e) ↔
        file.validate = .error e ∨ file.validate = .ok () ∧ merged.validate = .error e) ∧
      ∀ ready, (o.launch files fallback d).1 = .ok ready ↔
        file.validate = .ok () ∧ merged.validate = .ok () ∧ ready.settings = merged ∧
          ∃ fresh source n, Machine.boot merged fallback = .ok fresh ∧
            (o.openProgram files d₂).1 = .ok source ∧ fresh.loadFrom source = (.ok n, ready.machine) := by
  refine ⟨_, gives_of_assigned hassigned, ?_⟩
  rw [← overlay_eq]
  intro merged
  cases hfile : (Settings.ofAssignments as).validate with
  | error e =>
      rw [launch_of_boot_error hlog hread (boot_of_bad_file hassigned hfile)]
      simp
  | ok _ =>
      cases hmerged : merged.validate with
      | error e =>
          rw [launch_of_boot_error hlog hread (boot_of_bad_merge hassigned hfile hmerged)]
          simp
      | ok _ =>
          obtain ⟨fresh, hfresh, hboot⟩ | ⟨hfresh, hboot⟩ :
              (∃ fresh, Machine.boot merged fallback = .ok fresh ∧ o.boot fallback document = .ok ⟨merged, fresh⟩) ∨
                Machine.boot merged fallback = .error .tooManyCells ∧ o.boot fallback document = .error .tooManyCells :=
            boot_of_good_merge hassigned hfile hmerged
          · have hne := launch_ne_settings hlog hread hboot
            have hiff := launch_eq_ok_iff hlog hread hboot
            simpa [hne, hfresh] using hiff
          · rw [launch_of_boot_error hlog hread hboot]
            simp [hfresh]

theorem launch_settings_both :
    let files : Files (StateM Unit) :=
      { create := fun _ => pure (.ok ())
        text := fun _ => pure (.ok "load_origin = 0x300\nseed = 7")
        openBytes := fun _ => pure (.ok ⟨[[0x00, 0xe0]], none⟩) }
    let o : Options := { rom := some "ROM", config := some "CONFIG", origin := some 0x400, speed := some 20 }
    ∃ ready, (o.launch files (.ofSeed 0) ()).1 = .ok ready ∧
      ready.settings = { origin := 0x400, speed := 20, seed := some 7 } := by
  intro files o
  have hassigned : assigned? (some "load_origin = 0x300\nseed = 7") = some [(.origin, 0x300), (.seed, 7)] := by
    decide
  obtain ⟨file, hgives, -, hready⟩ := launch_settings files (.ofSeed 0) o rfl rfl hassigned
  obtain rfl := hgives.unique (gives_of_assigned hassigned)
  exact ⟨_, (hready ⟨_, _⟩).2 ⟨rfl, rfl, rfl, _, _, _, Machine.boot_eq rfl (by decide) _, rfl, rfl⟩, rfl⟩

theorem launch_of_mended_file :
    let files : Files (StateM Unit) :=
      { create := fun _ => pure (.ok ())
        text := fun _ => pure (.ok "load_origin = 0x60")
        openBytes := fun _ => pure (.ok ⟨[[0x00, 0xe0]], none⟩) }
    let o : Options := { rom := some "ROM", config := some "CONFIG", origin := some 0x200 }
    let merged : Settings := { origin := 0x200 }
    merged.validate = .ok () ∧ assigned? (some "load_origin = 0x60") = some [(.origin, 0x60)] ∧
      o.overlay (Settings.ofAssignments [(.origin, 0x60)]) = merged ∧
      (o.launch files (.ofSeed 0) ()).1 = .error (.settings (.badOrigin 0x60 0xa0 0xffe)) := by
  intro files o merged
  exact ⟨rfl, by decide, rfl, rfl⟩

end Chip8.CommandLine.Options
