import Flowchart.Command.Run
import Flowchart.Proofs.File.Write
import Mathlib

namespace Flowchart.Command

open FileTree (SameDirectories)

def numberedParent (output : Path) (directory : Bool) : Path :=
  if directory then output else output.parent

def numberedName (output : Path) (directory : Bool) (format : Format) (number : Nat) : String :=
  if directory then nameInDirectory format number else nameBesideFile output format number

section Names

variable {output : Path} {directory : Bool} {format : Format}

theorem numberedPath_eq_child (number : Nat) :
    numberedPath output directory format number =
      (numberedParent output directory).child (numberedName output directory format number) := by
  cases directory <;> rfl

/-- A numbered name is a stem, a dash, the number and what stands for the form. -/
theorem exists_numberedName (output : Path) (directory : Bool) (format : Format) :
    ∃ stem : String, ∀ number, numberedName output directory format number =
      stem ++ "-" ++ Nat.repr number ++ ("." ++ format.name) := by
  cases directory with
  | true =>
    refine ⟨"diagram", fun number => ?_⟩
    rw [← String.append_assoc]
    rfl
  | false =>
    refine ⟨output.stem?.getD "diagram", fun number => ?_⟩
    rw [← String.append_assoc]
    rfl

theorem numberedName_injective :
    Function.Injective (numberedName output directory format) := by
  obtain ⟨stem, hname⟩ := exists_numberedName output directory format
  intro i j h
  rw [hname, hname] at h
  have hrepr : Nat.repr i = Nat.repr j :=
    (String.append_right_inj (stem ++ "-")).1 ((String.append_left_inj _).1 h)
  exact Nat.repr_injective hrepr

/-- A dash is in every numbered name, so it is none of the steps without a name. -/
theorem numberedName_ne {step : String} (hstep : '-' ∉ step.toList) (number : Nat) :
    numberedName output directory format number ≠ step := by
  obtain ⟨stem, hname⟩ := exists_numberedName output directory format
  rintro rfl
  exact hstep (by simp [hname])

theorem numberedPath_injective : Function.Injective (numberedPath output directory format) := by
  intro i j h
  rw [numberedPath_eq_child, numberedPath_eq_child] at h
  have hsteps := congrArg Path.steps h
  exact numberedName_injective (List.singleton_inj.1 (List.append_cancel_left hsteps))

/-- Different numbers lead to different places. -/
theorem place_numberedPath_ne {t : FileTree} {i j : Nat} (hij : i ≠ j) {q : Place}
    (h : t.place (numberedPath output directory format i) = .ok q) :
    t.place (numberedPath output directory format j) ≠ .ok q := by
  intro hj
  have hdot : '-' ∉ ".".toList := by decide
  have hdots : '-' ∉ "..".toList := by decide
  rw [numberedPath_eq_child] at h hj
  obtain ⟨r, hr, hq⟩ :=
    FileTree.place_child_eq_ok h (numberedName_ne hdot i) (numberedName_ne hdots i)
  obtain ⟨r', hr', hq'⟩ :=
    FileTree.place_child_eq_ok hj (numberedName_ne hdot j) (numberedName_ne hdots j)
  have hlast := congrArg List.getLast? (hq.symm.trans hq')
  rw [List.getLast?_concat, List.getLast?_concat] at hlast
  exact hij (numberedName_injective (Option.some.inj hlast))

end Names

def onMachine {α : Type} (x : ExceptT Failure (StateM Machine) α) (w : Machine) :
    Except Failure α × Machine := x.run w

section Actions

variable {w w' : Machine}

theorem onMachine_bind {α β : Type} (x : ExceptT Failure (StateM Machine) α)
    (f : α → ExceptT Failure (StateM Machine) β) (w : Machine) :
    onMachine (x >>= f) w =
      match onMachine x w with
      | (.ok a, v) => onMachine (f a) v
      | (.error cause, v) => (.error cause, v) := by
  have hbind : onMachine (x >>= f) w = ExceptT.bindCont f (onMachine x w).1 (onMachine x w).2 := rfl
  rw [hbind]
  rcases onMachine x w with ⟨_ | a, v⟩ <;> rfl

theorem bind_onMachine_iff {α β : Type} {x : ExceptT Failure (StateM Machine) α}
    {f : α → ExceptT Failure (StateM Machine) β} {b : β} :
    onMachine (x >>= f) w = (.ok b, w') ↔
      ∃ a v, onMachine x w = (.ok a, v) ∧ onMachine (f a) v = (.ok b, w') := by
  rw [onMachine_bind]
  rcases onMachine x w with ⟨_ | a, v⟩ <;> simp

theorem onMachine_throw_ne_ok {α : Type} {cause : Failure} {a : α} :
    onMachine (throw cause) w ≠ (.ok a, w') := by
  have hthrow : onMachine (throw cause : ExceptT Failure (StateM Machine) α) w = (.error cause, w) :=
    rfl
  simp [hthrow]

theorem onMachine_readText (p : Path) (w : Machine) :
    onMachine (readText p) w =
      ((match w.files.read p with
        | .ok bytes => decode bytes
        | .error cause => .error (.file cause)), w) := by
  have hrun : onMachine (readText p) w = onMachine (match w.files.read p with
      | .ok bytes => ExceptT.mk (pure (decode bytes))
      | .error cause => throw (.file cause)) w := rfl
  rw [hrun]
  cases w.files.read p <;> rfl

/-- A file is written with the text of the diagram, and nothing else changes on the machine. -/
theorem writeFile_eq_ok {format : Format} {d : Diagram} {p : Path}
    (h : onMachine (writeFile format d p) w = (.ok (), w')) :
    ∃ text files, format.fileText? d = some text ∧ w.files.write p text.toUTF8 = .ok files ∧
      w' = { w with files } := by
  unfold writeFile at h
  cases htext : format.fileText? d with
  | none =>
    rw [htext] at h
    exact absurd h onMachine_throw_ne_ok
  | some text =>
    rw [htext] at h
    obtain ⟨written, v, hwrite, hthen⟩ := bind_onMachine_iff.1 h
    have hwritten : (w.write p text).1 = written := Except.ok.inj (congrArg Prod.fst hwrite)
    have hv : (w.write p text).2 = v := congrArg Prod.snd hwrite
    rw [Machine.write] at hwritten hv
    cases hfiles : w.files.write p text.toUTF8 with
    | error cause =>
      rw [hfiles] at hwritten
      obtain rfl : Except.error cause = written := hwritten
      exact absurd hthen onMachine_throw_ne_ok
    | ok files =>
      rw [hfiles] at hwritten hv
      obtain rfl : Except.ok () = written := hwritten
      obtain rfl : { w with files } = v := hv
      exact ⟨text, files, rfl, hfiles, (congrArg Prod.snd hthen).symm⟩

/-- Reading settings changes nothing on the machine. -/
theorem machine_readSettings (settings : Option Path) (w : Machine) :
    (onMachine (readSettings settings) w).2 = w := by
  cases settings with
  | none => rfl
  | some p =>
    unfold readSettings
    rw [onMachine_bind, onMachine_readText]
    cases w.files.read p with
    | error cause => rfl
    | ok bytes =>
      dsimp only
      cases decode bytes with
      | error cause => rfl
      | ok text =>
        dsimp only
        cases Settings.read? text.toList <;> rfl

theorem decode_toUTF8 (text : String) : decode text.toUTF8 = .ok text := by
  have hvalid : String.fromUTF8? text.toUTF8 = some text := dif_pos text.isValidUTF8
  rw [decode, hvalid]

/-- A path that names Markdown is not the dash of the standard input. -/
theorem isDash_of_isMarkdown {p : Path} (h : isMarkdown p = true) : p.isDash = false := by
  rw [Bool.eq_false_iff]
  intro hdash
  simp only [Path.isDash, Bool.and_eq_true, beq_iff_eq] at hdash
  rw [isMarkdown, Path.extension?, Path.fileName?, hdash.2] at h
  exact absurd h (by decide)

/-- The sources in a Markdown file are its blocks. -/
theorem readSources_eq_ok {p : Path} {text : String} {sources : List String}
    (hmarkdown : isMarkdown p = true) (hread : w.files.read p = .ok text.toUTF8)
    (h : onMachine (readSources (some p)) w = (.ok sources, w')) :
    sources = (Markdown.blocks text.toList).map String.ofList ∧ w' = w := by
  have hfilter : (some p).filter (!·.isDash) = some p := by
    simp [isDash_of_isMarkdown hmarkdown]
  unfold readSources at h
  rw [hfilter] at h
  obtain ⟨found, v, htext, hthen⟩ := bind_onMachine_iff.1 h
  rw [onMachine_readText, hread] at htext
  dsimp only at htext
  rw [decode_toUTF8] at htext
  obtain ⟨hfound, rfl⟩ := Prod.mk.inj htext
  obtain rfl := Except.ok.inj hfound
  rw [if_pos hmarkdown] at hthen
  obtain ⟨hsources, rfl⟩ := Prod.mk.inj hthen
  exact ⟨(Except.ok.inj hsources).symm, rfl⟩

end Actions

structure Wrote (format : Format) (config : Config) (files : List (String × Path))
    (before after : Machine) : Prop where
  directories : SameDirectories before.files after.files
  contents : ∀ f ∈ files, ∃ text, format.fileText? (.ofSource f.1 config) = some text ∧
    after.files.read f.2 = .ok text.toUTF8
  others : ∀ q, (∀ f ∈ files, before.files.place f.2 ≠ .ok q) →
    after.files.find? q = before.files.find? q
  machine : { before with files := after.files } = after

section Writing

variable {w w' : Machine} {format : Format} {config : Config}

/-- Files at places of their own do not touch each other. -/
theorem writeFiles_eq_ok {files : List (String × Path)}
    (h : onMachine (writeFiles format config files) w = (.ok (), w'))
    (hslash : ∀ f ∈ files, f.2.slashed = false)
    (hapart : files.Pairwise fun f g =>
      ∀ q, w.files.place f.2 = .ok q → w.files.place g.2 ≠ .ok q) :
    Wrote format config files w w' := by
  induction files generalizing w with
  | nil =>
    obtain rfl : w = w' := congrArg Prod.snd h
    exact ⟨.refl _, by simp, fun _ _ => rfl, rfl⟩
  | cons f rest ih =>
    obtain ⟨source, p⟩ := f
    obtain ⟨hfirst, hlater⟩ := List.pairwise_cons.1 hapart
    obtain ⟨_, v, hone, hrest⟩ := bind_onMachine_iff.1 h
    obtain ⟨text, files, htext, hwrite, rfl⟩ := writeFile_eq_ok hone
    obtain ⟨q, hplace, hentry, rfl⟩ := FileTree.write_eq_ok hwrite
    have hput := SameDirectories.put hentry text.toUTF8
    have hfind (r : Place) := FileTree.find?_put w.files q r (.file text.toUTF8)
      (FileTree.ne_root_of_not_directory hentry)
    -- the paths that are left lead where they led before the first file was there
    have hwrote : Wrote format config rest
        { w with files := w.files.put q (.file text.toUTF8) } w' := by
      refine ih hrest (fun g hg => hslash g (List.mem_cons_of_mem _ hg)) (hlater.imp ?_)
      intro g g' hne r hr hr'
      exact hne r (hput.place_eq_ok_iff.1 hr) (hput.place_eq_ok_iff.1 hr')
    have hall := hput.trans hwrote.directories
    refine ⟨hall, ?_, ?_, hwrote.machine⟩
    · refine List.forall_mem_cons.2 ⟨⟨text, htext, ?_⟩, hwrote.contents⟩
      have hkept : w'.files.find? q = some (.file text.toUTF8) := by
        rw [hwrote.others q fun g hg hq => hfirst g hg q hplace (hput.place_eq_ok_iff.1 hq)]
        exact (hfind q).trans (if_pos rfl)
      exact FileTree.read_eq_ok (hall.place_eq_ok_iff.2 hplace) hkept (hslash _ List.mem_cons_self)
    · intro r hr
      obtain ⟨hnot, hnots⟩ := List.forall_mem_cons.1 hr
      have hrq : r ≠ q := by
        rintro rfl
        exact hnot hplace
      rw [hwrote.others r fun g hg hq => hnots g hg (hput.place_eq_ok_iff.1 hq)]
      exact (hfind r).trans (if_neg hrq)

end Writing

def target (w : Machine) (output : Path) (format : Format) (number : Nat) : Path :=
  numberedPath output (w.files.isDirectory output) format number

/-- A machine after each of the sources has been written to the file with its number, the first one
being 1. The paths of the files and the places they lead to are different from each other, each file
has the text of its source alone under the configuration, and nothing else is changed. -/
structure WritesNumbered (output : Path) (format : Format) (config : Config) (sources : List String)
    (before after : Machine) : Prop where
  paths : Function.Injective (target before output format)
  places : ∀ i j q, i ≠ j → before.files.place (target before output format i) = .ok q →
    before.files.place (target before output format j) ≠ .ok q
  contents : ∀ i (h : i < sources.length), ∃ text,
    format.fileText? (.ofSource sources[i] config) = some text ∧
      after.files.read (target before output format (i + 1)) = .ok text.toUTF8
  others : ∀ q,
    (∀ i < sources.length, before.files.place (target before output format (i + 1)) ≠ .ok q) →
      after.files.find? q = before.files.find? q
  machine : { before with files := after.files } = after

def numberedFiles (w : Machine) (output : Path) (format : Format) (sources : List String) :
    List (String × Path) :=
  sources.zip (numberedPaths output (w.files.isDirectory output) format sources.length)

section Several

variable {w w' : Machine} {output : Path} {format : Format} {sources : List String}

theorem length_numberedFiles : (numberedFiles w output format sources).length = sources.length := by
  simp [numberedFiles, numberedPaths]

theorem getElem_numberedFiles {i : Nat} (h : i < (numberedFiles w output format sources).length)
    (hi : i < sources.length) :
    (numberedFiles w output format sources)[i] = (sources[i], target w output format (i + 1)) := by
  simp [numberedFiles, numberedPaths, target]

theorem mem_numberedFiles_iff {f : String × Path} :
    f ∈ numberedFiles w output format sources ↔
      ∃ i, ∃ h : i < sources.length, f = (sources[i], target w output format (i + 1)) := by
  rw [List.mem_iff_getElem]
  constructor
  · rintro ⟨i, h, rfl⟩
    have hi : i < sources.length := length_numberedFiles ▸ h
    exact ⟨i, hi, getElem_numberedFiles h hi⟩
  · rintro ⟨i, hi, rfl⟩
    have h : i < (numberedFiles w output format sources).length := by
      rw [length_numberedFiles]
      exact hi
    exact ⟨i, h, getElem_numberedFiles h hi⟩

/-- What is written to the numbered files is in them afterwards. -/
theorem writeFiles_writesNumbered {config : Config} (h : onMachine
      (writeFiles format config (numberedFiles w output format sources)) w = (.ok (), w')) :
    WritesNumbered output format config sources w w' := by
  have hslash : ∀ f ∈ numberedFiles w output format sources, f.2.slashed = false := by
    intro f hf
    obtain ⟨i, _, rfl⟩ := mem_numberedFiles_iff.1 hf
    dsimp only
    rw [target, numberedPath_eq_child]
    rfl
  have hapart : (numberedFiles w output format sources).Pairwise fun f g =>
      ∀ q, w.files.place f.2 = .ok q → w.files.place g.2 ≠ .ok q := by
    rw [List.pairwise_iff_getElem]
    intro i j hi hj hij q
    rw [getElem_numberedFiles hi (length_numberedFiles ▸ hi),
      getElem_numberedFiles hj (length_numberedFiles ▸ hj)]
    exact place_numberedPath_ne (by omega)
  have hwrote := writeFiles_eq_ok h hslash hapart
  refine ⟨numberedPath_injective, fun i j q hij => place_numberedPath_ne hij, ?_, ?_, hwrote.machine⟩
  · intro i hi
    have hmem : (sources[i], target w output format (i + 1)) ∈
        numberedFiles w output format sources := mem_numberedFiles_iff.2 ⟨i, hi, rfl⟩
    obtain ⟨text, htext, hfile⟩ := hwrote.contents _ hmem
    exact ⟨text, htext, hfile⟩
  · intro q hq
    refine hwrote.others q fun f hf => ?_
    obtain ⟨i, hi, rfl⟩ := mem_numberedFiles_iff.1 hf
    exact hq i hi

/-- A run that succeeds on a Markdown file with several diagrams writes each of them to the file with
its number, under the settings of the run. -/
theorem run_writesNumbered {a : Arguments} {input : Path} {text : String}
    (hrun : onMachine (run a) w = (.ok (), w')) (hinput : a.input = some input)
    (hmarkdown : isMarkdown input = true) (hread : w.files.read input = .ok text.toUTF8)
    (hseveral : 2 ≤ (Markdown.blocks text.toList).length) (houtput : a.output = some output) :
    ∃ settings, onMachine (readSettings a.settings) w = (.ok settings, w) ∧
      WritesNumbered output a.format (a.config settings)
        ((Markdown.blocks text.toList).map String.ofList) w w' := by
  obtain ⟨settings, v, hsettings, hthen⟩ := bind_onMachine_iff.1 hrun
  obtain rfl : w = v := by
    rw [← machine_readSettings a.settings w, hsettings]
  obtain ⟨sources, v, hsources, hwrite⟩ := bind_onMachine_iff.1 hthen
  rw [hinput] at hsources
  obtain ⟨hblocks, rfl⟩ := readSources_eq_ok hmarkdown hread hsources
  refine ⟨settings, hsettings, ?_⟩
  rw [← hblocks]
  have hlength : 2 ≤ sources.length := by simpa [hblocks] using hseveral
  apply writeFiles_writesNumbered
  match sources, hlength, hwrite with
  | first :: second :: rest, _, hwrite =>
    unfold writeSources at hwrite
    rw [houtput] at hwrite
    exact hwrite

end Several

def twoBlocks : String :=
  "\x60\x60\x60mermaid\n%%\x7binit: \x7b\"theme\": \"dark\"\x7d\x7d%%\nA\n\x60\x60\x60\n" ++
    "~~~flowchart\nB\n~~~\n"

def twoBlocksMachine : Machine where
  files := { entries := [(["doc.md"], .file twoBlocks.toUTF8)] }
  input := .empty

def twoBlocksArguments : Arguments where
  input := some (.ofText "doc.md".toList)
  output := some (.ofText "out.svg".toList)

theorem twoBlocks_written :
    ∃ w, onMachine (run twoBlocksArguments) twoBlocksMachine = (.ok (), w) ∧
      WritesNumbered (.ofText "out.svg".toList) .svg (twoBlocksArguments.config none)
        ["%%\x7binit: \x7b\"theme\": \"dark\"\x7d\x7d%%\nA", "B"] twoBlocksMachine w := by
  have hok : (onMachine (run twoBlocksArguments) twoBlocksMachine).1 = .ok () := by
    decide +kernel
  have hread : twoBlocksMachine.files.read (.ofText "doc.md".toList) = .ok twoBlocks.toUTF8 := by
    rfl
  have hblocks : (Markdown.blocks twoBlocks.toList).map String.ofList =
      ["%%\x7binit: \x7b\"theme\": \"dark\"\x7d\x7d%%\nA", "B"] := by
    decide +kernel
  have hseveral : 2 ≤ (Markdown.blocks twoBlocks.toList).length := by decide +kernel
  have hmarkdown : isMarkdown (.ofText "doc.md".toList) = true := by decide +kernel
  rcases hrun : onMachine (run twoBlocksArguments) twoBlocksMachine with ⟨outcome, w⟩
  rw [hrun] at hok
  obtain rfl : outcome = .ok () := hok
  obtain ⟨settings, hsettings, hwrites⟩ :=
    run_writesNumbered hrun rfl hmarkdown hread hseveral rfl
  obtain rfl : none = settings := Except.ok.inj (congrArg Prod.fst hsettings)
  rw [hblocks] at hwrites
  exact ⟨w, rfl, hwrites⟩

end Flowchart.Command
