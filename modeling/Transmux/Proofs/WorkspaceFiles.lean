import Transmux.CommandLine.Workspace

/-! Files of a workspace. A write to a path changes what is at one place: a file holds the data
afterwards and gives it back, a device passes it on, and all other files stay as they are. -/

namespace Transmux

theorem bind_eq_ok_iff {ε α β : Type} {x : Except ε α} {f : α → Except ε β} {b : β} :
    x >>= f = .ok b ↔ ∃ a, x = .ok a ∧ f a = .ok b := by
  cases x with
  | error e => simp [bind, Except.bind]
  | ok a => simp [bind, Except.bind]

theorem mapError_eq_ok_iff {ε ε' α : Type} {f : ε → ε'} {x : Except ε α} {a : α} :
    x.mapError f = .ok a ↔ x = .ok a := by
  cases x with
  | error e =>
    constructor <;>
    · intro h
      cases h
  | ok b =>
    have hsame : (Except.ok b : Except ε α).mapError f = .ok b := rfl
    rw [hsame, Except.ok.injEq, Except.ok.injEq]

namespace Workspace

variable {w w' : Workspace} {t u : Trail} {path : String} {data : Bytes}

/-- Where a path leads to. What is above has to be there. -/
def place (w : Workspace) (path : String) : Except FileError Trail := do
  let (here, names) ← start path
  let here ← w.walk here names.dropLast
  names.getLast?.elim (.ok here) (enter here)

theorem place_eq_ok_iff : w.place path = .ok t ↔
    ∃ here names there, start path = .ok (here, names) ∧ w.walk here names.dropLast = .ok there
      ∧ names.getLast?.elim (.ok there) (enter there) = .ok t := by
  rw [place, bind_eq_ok_iff]
  constructor
  · rintro ⟨⟨here, names⟩, hstart, h⟩
    obtain ⟨there, hwalk, hlast⟩ := bind_eq_ok_iff.1 h
    exact ⟨here, names, there, hstart, hwalk, hlast⟩
  · rintro ⟨here, names, there, hstart, hwalk, hlast⟩
    exact ⟨(here, names), hstart, bind_eq_ok_iff.2 ⟨there, hwalk, hlast⟩⟩

theorem readFile_of_place (hplace : w.place path = .ok t) (hdirectory : w.isDirectory t = false)
    (hend : endsAtDirectory path = false) : w.readFile path = w.content t := by
  obtain ⟨here, names, there, hstart, hwalk, hlast⟩ := place_eq_ok_iff.1 hplace
  rw [readFile]
  simp [hstart, hwalk, hlast, hdirectory, hend, bind, Except.bind]

theorem last_ne_point (h : endsAtDirectory path = false) :
    ((FilePath.pieces path.toList).reverse.dropWhile (· = [])).head? ≠ some ['.'] := by
  rw [endsAtDirectory, Bool.not_eq_false', Option.any_eq_true] at h
  obtain ⟨last, hlast, hstep⟩ := h
  simp only [FilePath.isStep, Bool.and_eq_true, bne_iff_ne] at hstep
  obtain ⟨rest, hrest⟩ : ∃ rest, (FilePath.pieces path.toList).reverse = last :: rest := by
    rw [← List.head?_reverse] at hlast
    exact List.head?_eq_some_iff.1 hlast
  simp [hrest, hstep]

theorem writeFile_eq_ok_iff : w.writeFile path data = .ok w' ↔
    ∃ t, w.place path = .ok t ∧ w.isDirectory t = false ∧ endsAtDirectory path = false
      ∧ (device? t).elim (.ok (w.put t data)) (w.send data) = .ok w' := by
  rw [writeFile, bind_eq_ok_iff]
  constructor
  · rintro ⟨⟨here, names⟩, hstart, h⟩
    dsimp only at h
    split at h
    · -- A point at the end is refused, whether or not there is something above it.
      obtain ⟨there, -, hrefused⟩ := bind_eq_ok_iff.1 h
      cases hrefused
    · obtain ⟨there, hwalk, h⟩ := bind_eq_ok_iff.1 h
      by_cases hend : endsAtDirectory path
      · rw [if_pos hend] at h
        cases h
      · rw [if_neg hend] at h
        obtain ⟨t, hlast, h⟩ := bind_eq_ok_iff.1 h
        by_cases hdirectory : w.isDirectory t
        · rw [if_pos hdirectory] at h
          cases h
        · rw [if_neg hdirectory] at h
          have hplace : w.place path = .ok t :=
            place_eq_ok_iff.2 ⟨here, names, there, hstart, hwalk, hlast⟩
          exact ⟨t, hplace, by simpa using hdirectory, by simpa using hend, h⟩
  · rintro ⟨t, hplace, hdirectory, hend, h⟩
    obtain ⟨here, names, there, hstart, hwalk, hlast⟩ := place_eq_ok_iff.1 hplace
    refine ⟨(here, names), hstart, ?_⟩
    simpa [last_ne_point hend, hwalk, hend, hlast, hdirectory, bind, Except.bind] using h

section put

theorem lookup_replace (files : List (Trail × Bytes)) (t u : Trail) (data : Bytes) :
    (files.map fun file => if file.1 = t then (file.1, data) else file).lookup u
      = if u = t then (files.lookup t).map fun _ => data else files.lookup u := by
  induction files with
  | nil => simp
  | cons file files ih =>
    obtain ⟨v, old⟩ := file
    by_cases hv : v = t
    · simp only [List.map_cons, if_pos hv, List.lookup_cons, ih]
      by_cases hu : u = t
      · simp [hv, hu]
      · have hne : (u == v) = false := beq_eq_false_iff_ne.2 (hv ▸ hu)
        simp [hu, hne]
    · simp only [List.map_cons, if_neg hv, List.lookup_cons, ih]
      by_cases hu : u = t
      · have hne : (t == v) = false := beq_eq_false_iff_ne.2 (Ne.symm hv)
        simp [hu, hne]
      · simp [hu]

theorem put_of_isSome (h : (w.file? t).isSome) : (w.put t data).files
    = w.files.map fun file => if file.1 = t then (file.1, data) else file := by
  rw [put, if_pos h]

theorem file?_put (w : Workspace) (t u : Trail) (data : Bytes) :
    (w.put t data).file? u = if u = t then some data else w.file? u := by
  by_cases hold : (w.file? t).isSome
  · obtain ⟨old, hlookup⟩ := Option.isSome_iff_exists.1 hold
    rw [file?, put_of_isSome hold, lookup_replace, show w.files.lookup t = some old from hlookup]
    rfl
  · have hnone : w.files.lookup t = none := Option.not_isSome_iff_eq_none.1 hold
    rw [put, if_neg hold, file?, List.lookup_append]
    by_cases hu : u = t
    · simp [hu, hnone]
    · have hne : (u == t) = false := beq_eq_false_iff_ne.2 hu
      simp [file?, List.lookup_cons, hu, hne]

/-- A new file makes directories of the places above it. -/
theorem isDirectory_put_iff : (w.put t data).isDirectory u = true
    ↔ w.isDirectory u = true ∨ (u <+: t ∧ u.length < t.length) := by
  by_cases hold : (w.file? t).isSome
  · have hkey : ∀ file : Trail × Bytes,
        (if file.1 = t then (file.1, data) else file).1 = file.1 := by
      intro file
      split <;> rfl
    have hsame : (w.put t data).isDirectory u = w.isDirectory u := by
      rw [isDirectory, put_of_isSome hold, List.any_map]
      simp only [Function.comp_def, hkey]
      rfl
    rw [hsame]
    refine ⟨.inl, ?_⟩
    rintro (h | ⟨hpre, hlength⟩)
    · exact h
    · obtain ⟨old, hlookup⟩ := Option.isSome_iff_exists.1 hold
      obtain ⟨front, back, hfiles, -⟩ := List.lookup_eq_some_iff.1 hlookup
      simp [isDirectory, hfiles, hpre, hlength]
  · rw [put, if_neg hold]
    simp [isDirectory, or_assoc]

theorem walk_put {here there : Trail} {names : List String}
    (h : w.walk here names = .ok there) : (w.put t data).walk here names = .ok there := by
  induction names generalizing here with
  | nil => exact h
  | cons name names ih =>
    rw [walk, List.foldlM_cons] at h ⊢
    obtain ⟨next, hstep, hrest⟩ := bind_eq_ok_iff.1 h
    obtain ⟨entered, henter, hcheck⟩ := bind_eq_ok_iff.1 hstep
    by_cases hdirectory : w.isDirectory entered
    · have hput : (w.put t data).isDirectory entered = true :=
        isDirectory_put_iff.2 (.inl hdirectory)
      rw [if_pos hdirectory] at hcheck
      refine bind_eq_ok_iff.2 ⟨next, bind_eq_ok_iff.2 ⟨entered, henter, ?_⟩, ih hrest⟩
      rw [if_pos hput]
      exact hcheck
    · rw [if_neg hdirectory] at hcheck
      cases hcheck

theorem place_put (h : w.place path = .ok u) : (w.put t data).place path = .ok u := by
  obtain ⟨here, names, there, hstart, hwalk, hlast⟩ := place_eq_ok_iff.1 h
  exact place_eq_ok_iff.2 ⟨here, names, there, hstart, walk_put hwalk, hlast⟩

theorem readFile_put (hplace : w.place path = .ok t) (hdirectory : w.isDirectory t = false)
    (hend : endsAtDirectory path = false) (hdevice : device? t = none) :
    (w.put t data).readFile path = .ok data := by
  have hstill : (w.put t data).isDirectory t = false := by
    rw [Bool.eq_false_iff, ne_eq, isDirectory_put_iff]
    simp [hdirectory]
  rw [readFile_of_place (place_put hplace) hstill hend, content, hdevice]
  simp [file?_put]

end put

/-- The states before and after data went to the place of a path. -/
inductive Written (w w' : Workspace) (path : String) (data : Bytes) : Prop where
  | file (t : Trail) (place_eq : w.place path = .ok t) (device?_eq : device? t = none)
      (file?_eq : w'.file? t = some data) (others : ∀ u, u ≠ t → w'.file? u = w.file? u)
      (output_eq : w'.output = w.output) (readFile_eq : w'.readFile path = .ok data)
  | device (t : Trail) (d : Device) (place_eq : w.place path = .ok t)
      (device?_eq : device? t = some d) (files_eq : w'.files = w.files)
      (output_eq : w'.output = if d = .output then w.output ++ data else w.output)

/-- Whether a device takes data. One that fails takes nothing but nothing. -/
def Accepts (w : Workspace) (data : Bytes) : Device → Prop
  | .sink | .spring | .input => True
  | .full => data = []
  | .terminal => False
  | .output => w.outputFailure = none ∨ data = []
  | .errors => w.errorsFailure = none ∨ data = []

theorem refusal?_eq_none_iff {d : Device} : w.refusal? data d = none ↔ w.Accepts data d := by
  cases d with
  | sink | spring | input => exact iff_of_true rfl trivial
  | terminal => exact iff_of_false (Option.some_ne_none _) id
  | full | output | errors =>
    cases data with
    | nil => simp [refusal?, Accepts]
    | cons b bs => simp [refusal?, Accepts]

theorem send_eq_ok_iff {d : Device} :
    w.send data d = .ok w' ↔ w.Accepts data d ∧ w' = w.passed data d := by
  rw [send, ← refusal?_eq_none_iff]
  cases w.refusal? data d with
  | none => simp [eq_comm]
  | some e => simp

theorem send_of_not_accepts {d : Device} (h : ¬ w.Accepts data d) :
    ∃ e, w.send data d = .error e := by
  rw [← refusal?_eq_none_iff] at h
  obtain ⟨e, he⟩ := Option.ne_none_iff_exists'.1 h
  exact ⟨e, by rw [send, he, Option.elim_some]⟩

theorem files_passed (w : Workspace) (data : Bytes) (d : Device) :
    (w.passed data d).files = w.files := by
  cases d <;> rfl

theorem output_passed (w : Workspace) (data : Bytes) (d : Device) :
    (w.passed data d).output = if d = .output then w.output ++ data else w.output := by
  cases d <;> rfl

theorem errorsFailure_of_writeFile (h : w.writeFile path data = .ok w') :
    w'.errorsFailure = w.errorsFailure := by
  obtain ⟨t, -, -, -, hwrite⟩ := writeFile_eq_ok_iff.1 h
  cases hdevice : device? t with
  | none =>
    rw [hdevice] at hwrite
    cases hwrite
    rw [put]
    split <;> rfl
  | some d =>
    rw [hdevice] at hwrite
    obtain ⟨-, rfl⟩ := send_eq_ok_iff.1 hwrite
    cases d <;> rfl

theorem written_of_writeFile (h : w.writeFile path data = .ok w') : Written w w' path data := by
  obtain ⟨t, hplace, hdirectory, hend, hwrite⟩ := writeFile_eq_ok_iff.1 h
  cases hdevice : device? t with
  | none =>
    rw [hdevice] at hwrite
    cases hwrite
    have hothers : ∀ u, u ≠ t → (w.put t data).file? u = w.file? u := by
      intro u hu
      rw [file?_put, if_neg hu]
    have houtput : (w.put t data).output = w.output := by
      rw [put]
      split <;> rfl
    exact .file t hplace hdevice (by simp [file?_put]) hothers houtput
      (readFile_put hplace hdirectory hend hdevice)
  | some d =>
    rw [hdevice] at hwrite
    obtain ⟨-, rfl⟩ := send_eq_ok_iff.1 hwrite
    exact .device t d hplace hdevice (files_passed ..) (output_passed ..)

/-- A path that data can be written to: there is no directory, and a device takes the data. -/
def Writable (w : Workspace) (path : String) (data : Bytes) : Prop :=
  ∃ t, w.place path = .ok t ∧ w.isDirectory t = false ∧ endsAtDirectory path = false
    ∧ ∀ d, device? t = some d → w.Accepts data d

theorem exists_writeFile_iff : (∃ w', w.writeFile path data = .ok w') ↔ w.Writable path data := by
  constructor
  · rintro ⟨w', h⟩
    obtain ⟨t, hplace, hdirectory, hend, hwrite⟩ := writeFile_eq_ok_iff.1 h
    refine ⟨t, hplace, hdirectory, hend, fun d hdevice => ?_⟩
    rw [hdevice] at hwrite
    exact (send_eq_ok_iff.1 hwrite).1
  · rintro ⟨t, hplace, hdirectory, hend, haccepts⟩
    have hwrite : ∃ w', (device? t).elim (.ok (w.put t data)) (w.send data) = .ok w' := by
      cases hdevice : device? t with
      | none => exact ⟨_, rfl⟩
      | some d => exact ⟨_, send_eq_ok_iff.2 ⟨haccepts d hdevice, rfl⟩⟩
    obtain ⟨w', hwrite⟩ := hwrite
    exact ⟨w', writeFile_eq_ok_iff.2 ⟨t, hplace, hdirectory, hend, hwrite⟩⟩

end Workspace

end Transmux
