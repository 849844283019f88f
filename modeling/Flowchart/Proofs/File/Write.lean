import Flowchart.File.Tree
import Mathlib.Data.List.Basic

/-! A file takes the place of nothing or of another file, so directories stay where they are; and
where a path leads depends on the directories only. -/
namespace Flowchart.FileTree

structure SameDirectories (t u : FileTree) : Prop where
  working : u.working = t.working
  directory : ∀ p, u.find? p = some .directory ↔ t.find? p = some .directory

theorem SameDirectories.refl (t : FileTree) : SameDirectories t t := ⟨rfl, fun _ => Iff.rfl⟩

theorem SameDirectories.trans {t u v : FileTree} (htu : SameDirectories t u)
    (huv : SameDirectories u v) : SameDirectories t v :=
  ⟨huv.working.trans htu.working, fun p => (huv.directory p).trans (htu.directory p)⟩

theorem follow_cons_eq_ok_iff {t : FileTree} {p q : Place} {step : String} {rest : List String} :
    t.follow p (step :: rest) = .ok q ↔
      t.find? p = some .directory ∧ step.utf8ByteSize ≤ longestName ∧
        t.follow (stepFrom p step) rest = .ok q := by
  rw [follow]
  cases t.find? p with
  | none => simp
  | some e =>
    cases e with
    | file content => simp
    | directory =>
      dsimp only
      split
      · next hlong => simp [Nat.not_le.2 hlong]
      · next hshort => simp [Nat.le_of_not_lt hshort]

theorem follow_concat_eq_ok {t : FileTree} {p q : Place} {steps : List String} {name : String}
    (h : t.follow p (steps ++ [name]) = .ok q) :
    ∃ r, t.follow p steps = .ok r ∧ q = stepFrom r name := by
  induction steps generalizing p with
  | nil =>
    obtain ⟨_, _, hend⟩ := follow_cons_eq_ok_iff.1 h
    exact ⟨p, rfl, (Except.ok.inj hend).symm⟩
  | cons step rest ih =>
    obtain ⟨hdirectory, hshort, hrest⟩ := follow_cons_eq_ok_iff.1 h
    obtain ⟨r, hr, hq⟩ := ih hrest
    exact ⟨r, follow_cons_eq_ok_iff.2 ⟨hdirectory, hshort, hr⟩, hq⟩

/-- A name in a directory that is not one of the two steps without a name. -/
theorem place_child_eq_ok {t : FileTree} {p : Path} {q : Place} {name : String}
    (h : t.place (p.child name) = .ok q) (hdot : name ≠ ".") (hdots : name ≠ "..") :
    ∃ r, t.place p = .ok r ∧ q = r ++ [name] := by
  obtain ⟨r, hr, hq⟩ := follow_concat_eq_ok h
  exact ⟨r, hr, by rw [hq, stepFrom, if_neg hdot, if_neg hdots]⟩

theorem SameDirectories.follow_eq_ok_iff {t u : FileTree} (h : SameDirectories t u) {p q : Place}
    {steps : List String} : u.follow p steps = .ok q ↔ t.follow p steps = .ok q := by
  induction steps generalizing p with
  | nil => exact Iff.rfl
  | cons step rest ih =>
    rw [follow_cons_eq_ok_iff, follow_cons_eq_ok_iff, h.directory, ih]

theorem SameDirectories.place_eq_ok_iff {t u : FileTree} (h : SameDirectories t u) {p : Path}
    {q : Place} : u.place p = .ok q ↔ t.place p = .ok q := by
  have hstart : u.start p = t.start p := by rw [start, start, h.working]
  rw [place, place, hstart, h.follow_eq_ok_iff]

theorem bind_eq_ok_iff {α β : Type} {x : Except FileError α} {f : α → Except FileError β} {b : β} :
    x >>= f = .ok b ↔ ∃ a, x = .ok a ∧ f a = .ok b := by
  cases x with
  | error e => simp [bind, Except.bind]
  | ok a => simp [bind, Except.bind]

theorem throw_ne_ok {α : Type} {e : FileError} {a : α} :
    (throw e : Except FileError α) ≠ .ok a := by
  simp [throw, throwThe, MonadExceptOf.throw]

/-- A file is written where its path leads, and never in place of a directory. -/
theorem writable_eq_ok {t : FileTree} {p : Path} {q : Place} (h : t.writable p = .ok q) :
    t.place p = .ok q ∧ t.find? q ≠ some .directory := by
  unfold writable at h
  split at h
  · obtain ⟨_, _, hthrow⟩ := bind_eq_ok_iff.1 h
    exact absurd hthrow throw_ne_ok
  · obtain ⟨place, hplace, hentry⟩ := bind_eq_ok_iff.1 h
    split at hentry
    · exact absurd hentry throw_ne_ok
    · next hnot =>
      obtain rfl := Except.ok.inj hentry
      exact ⟨hplace, hnot⟩

theorem write_eq_ok {t u : FileTree} {p : Path} {content : ByteArray}
    (h : t.write p content = .ok u) :
    ∃ q, t.place p = .ok q ∧ t.find? q ≠ some .directory ∧ u = t.put q (.file content) := by
  obtain ⟨q, hq, hput⟩ := bind_eq_ok_iff.1 h
  obtain ⟨hplace, hentry⟩ := writable_eq_ok hq
  exact ⟨q, hplace, hentry, (Except.ok.inj hput).symm⟩

theorem ne_root_of_not_directory {t : FileTree} {q : Place} (h : t.find? q ≠ some .directory) :
    q ≠ [] := by
  rintro rfl
  exact h rfl

theorem SameDirectories.put {t : FileTree} {q : Place} (h : t.find? q ≠ some .directory)
    (content : ByteArray) : SameDirectories t (t.put q (.file content)) := by
  refine ⟨rfl, fun p => ?_⟩
  rw [find?_put t q p _ (ne_root_of_not_directory h)]
  split
  · next hp =>
    subst hp
    simp [h]
  · exact Iff.rfl

theorem read_eq_ok {t : FileTree} {p : Path} {q : Place} {content : ByteArray}
    (hplace : t.place p = .ok q) (hfile : t.find? q = some (.file content))
    (hslash : p.slashed = false) : t.read p = .ok content := by
  rw [read, hplace]
  simp only [bind, Except.bind, hfile, hslash]
  rfl

end Flowchart.FileTree
