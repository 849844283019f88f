import Flowchart.Proofs.Script.Keyword
import Mathlib.Data.List.Forall2

namespace Flowchart.Script

open Source

/-- The line makes one statement and nothing else. -/
structure Says (line : List Char) (st : Statement) : Prop where
  snug : Text.Snug line
  plain : ∃ c r, line = c :: r ∧ isPlain c = true
  oneLine : '\n' ∉ line
  uncommented : commentScanner.Still {} line
  whole : (shownScanner (· != ';')).Still .neutral line
  noNote : isNoteStart line = false
  read : Statement.read line = st

theorem Says.progress {line : List Char} {st : Statement} (h : Says line st) (d : Defaults)
    {p : Progress} (hp : p.inNote = false) :
    p.read d line = { p with state := p.state.apply d st } := by
  obtain ⟨c, r, hline, hc⟩ := h.plain
  have hpercent : '%' ≠ c := (ne_of_isPlain hc rfl).symm
  -- a plain character comes first, so the line is neither a directive nor a comment
  have hempty : line.isEmpty = false := by simpa using h.snug.ne_nil
  have hinit : initPayload? line = none := by
    simp [initPayload?, afterBlanks?, hline, List.isPrefixOf?, hpercent]
  have hcomment : isComment line = false := by
    simp [isComment, hline, List.isPrefixOf, hpercent]
  have hdrop : dropComment false line = line := dropComment_of_run? (n := {}) h.uncommented
  simp only [Progress.read, Progress.readBy, h.snug.trim, hempty, hp, hinit, hcomment, Progress.readStatements,
    withoutComment, hdrop, h.noNote, statements_of_run? h.whole h.snug, Bool.false_eq_true, if_false,
    List.foldl_cons, List.foldl_nil, h.read]

theorem exists_parted (x : Mention) {more : List Char} (h : Parted more) :
    ∃ rest, x.print ++ more = x.name.chars ++ rest ∧ Parted rest := by
  unfold Mention.print
  cases x.dress with
  | none => exact ⟨more, by simp, h⟩
  | some d => exact ⟨d.print ++ more, by simp, parted_quoted d.mem_wrappers d.text.chars more⟩

theorem Mention.plain (x : Mention) (more : List Char) :
    ∃ c r, x.print ++ more = c :: r ∧ isPlain c = true := by
  obtain ⟨c, r, hname⟩ := List.exists_cons_of_ne_nil x.name.nonempty
  have hc : isNameChar c = true := x.name.legal c (hname ▸ List.mem_cons_self)
  exact ⟨c, _, by rw [Mention.print, hname]; rfl, isPlain_of_isNameChar hc⟩

theorem Mention.says (x : Mention) : Says x.print (.node x.ref) := by
  have hnil : Parted [] := fun c hc => absurd hc (by simp)
  obtain ⟨rest, hprint, hrest⟩ := exists_parted x hnil
  rw [List.append_nil] at hprint
  exact {
    snug := x.snug
    plain := by simpa using x.plain []
    oneLine := lineScanner_still_iff.1 (x.still plain_lineScanner Dress.still_lineScanner)
    uncommented := x.still plain_commentScanner Dress.still_commentScanner
    whole := x.still_but rfl rfl
    noNote := hprint ▸ isNoteStart_name x.name hrest
    read := by
      rw [hprint, read_name x.name hrest, ← hprint, readChain?_mention, readNode?_print]
      rfl }

theorem Group.closes (g : Group) : Text.Closes g.print :=
  Text.Closes.append_flatMap g.first.snug.closes fun x _ => x.snug.closes.append _

theorem Hop.closes (h : Hop) : Text.Closes h.print := h.group.closes.append _

/-- A scanner that reads over the marks of chains reads over a path. -/
theorem Path.still_marks {σ : Type} {m : Scanner σ} {n : σ}
    (hmention : ∀ x : Mention, m.Still n x.print) (hcaption : ∀ c : Caption, m.Still n c.print)
    (hblank : m.Still n [' ']) (hand : m.Still n [' ', '&', ' '])
    (hmarker : ∀ k ∈ connectors, m.Still n k.marker) (p : Path) : m.Still n p.print :=
  p.still (Group.still hmention hand) (Hop.still (Group.still hmention hand) hblank hmarker hcaption)

theorem Path.says (p : Path) : Says p.print (.chain p.chain) := by
  have hmore : Parted ((p.start.others.flatMap fun x => [' ', '&', ' '] ++ x.print) ++
      (p.hop :: p.hops).flatMap Hop.print) := by
    cases p.start.others with
    | nil => exact parted_blank _
    | cons x rest => exact parted_blank _
  obtain ⟨rest, hrest, hparted⟩ := exists_parted p.start.first hmore
  have hprint : p.print = p.start.first.name.chars ++ rest := by
    rw [← hrest, Path.print, Group.print, List.append_assoc]
  exact {
    snug := {
      leads := hprint ▸ p.start.first.name.snug.leads.append rest
      closes := Text.Closes.append_flatMap p.start.closes fun h _ => h.closes }
    plain := by
      rw [hprint, ← hrest]
      exact p.start.first.plain _
    oneLine := lineScanner_still_iff.1 (p.still_marks
      (Mention.still plain_lineScanner Dress.still_lineScanner) Caption.still_lineScanner rfl rfl
      (by decide))
    uncommented := p.still_marks (Mention.still plain_commentScanner Dress.still_commentScanner)
      Caption.still_commentScanner rfl rfl (by decide)
    whole := p.still_marks (Mention.still_but (d := ';') rfl rfl) (Caption.still_shown rfl) rfl rfl
      (by decide)
    noNote := hprint ▸ isNoteStart_name p.start.first.name hparted
    read := by
      rw [hprint, read_name p.start.first.name hparted, ← hprint, readChain?_print]
      rfl }

def farBlanks : List Nat :=
  [0x85, 0xA0, 0x1680, 0x2000, 0x2001, 0x2002, 0x2003, 0x2004, 0x2005, 0x2006, 0x2007, 0x2008,
    0x2009, 0x200A, 0x2028, 0x2029, 0x202F, 0x205F, 0x3000]

theorem toNat_mem_farBlanks {c : Char} (h : Text.isBlank c = true) (hfar : 0x80 ≤ c.toNat) :
    c.toNat ∈ farBlanks := by
  simp only [Text.isBlank, Bool.or_eq_true, Bool.and_eq_true, decide_eq_true_eq, beq_iff_eq] at h
  simp only [farBlanks, List.mem_cons, List.not_mem_nil, or_false]
  omega

/-- Letters and digits are plain and not blank. -/
theorem Title.plain (t : Title) : ∀ c ∈ t.chars, isPlain c = true ∧ Text.isBlank c = false := by
  -- blanks beyond ASCII are few enough to look all of them up in the tables
  have hfar : ∀ n ∈ farBlanks, Text.inRanges Text.letterRanges (Char.ofNat n) = false ∧
      Text.inRanges Text.digitRanges (Char.ofNat n) = false := by
    decide +kernel
  intro c hc
  have hlegal : isNameChar c = true ∨ 0x80 ≤ c.toNat ∧
      (Text.inRanges Text.letterRanges c = true ∨ Text.inRanges Text.digitRanges c = true) := by
    have h := t.legal c hc
    simp only [Text.isLetter, Text.isDecimalDigit, Bool.or_eq_true, Bool.and_eq_true,
      decide_eq_true_eq] at h
    rcases h with (halpha | hletter) | (hdigit | hnumber)
    · have hchar : isNameChar c = ((c.isAlpha || c.isDigit) || c == '_') := rfl
      exact .inl (by simp [hchar, halpha])
    · exact .inr ⟨hletter.1, .inl hletter.2⟩
    · have hchar : isNameChar c = ((c.isAlpha || c.isDigit) || c == '_') := rfl
      exact .inl (by simp [hchar, hdigit])
    · exact .inr ⟨hnumber.1, .inr hnumber.2⟩
  rcases hlegal with hname | ⟨hcode, hrange⟩
  · exact ⟨isPlain_of_isNameChar hname, isBlank_of_isNameChar hname⟩
  · refine ⟨by simp [isPlain, hcode], ?_⟩
    rw [← Bool.not_eq_true]
    intro hblank
    have hout := hfar c.toNat (toNat_mem_farBlanks hblank hcode)
    rw [Char.ofNat_toNat] at hout
    simp [hout.1, hout.2] at hrange

def isBland (c : Char) : Bool := isPlain c || c == ' '

/-- A line of plain characters and blanks is read over by all scanners. -/
theorem Says.of_plain {c : Char} {s : List Char} {st : Statement} (hc : isPlain c = true)
    (hsnug : Text.Snug (c :: s)) (hbland : (c :: s).all isBland = true)
    (hnote : c.toLower ≠ 'n') (hread : Statement.read (c :: s) = st) : Says (c :: s) st := by
  have hstill {σ : Type} {m : Scanner σ} {n : σ} (h : Plain m n)
      (hblank : m.fine n ' ' = true ∧ m.next n ' ' = n) : m.Still n (c :: s) := by
    refine Scanner.still_of_forall fun d hd => ?_
    have hd := List.all_eq_true.1 hbland d hd
    rw [isBland, Bool.or_eq_true, beq_iff_eq] at hd
    rcases hd with hd | rfl
    · exact h d hd
    · exact hblank
  obtain ⟨b, r, hcons, hb⟩ := hsnug.leads
  obtain ⟨rfl, rfl⟩ := List.cons.inj hcons
  exact {
    snug := hsnug
    plain := ⟨c, s, rfl, hc⟩
    oneLine := lineScanner_still_iff.1 (hstill plain_lineScanner ⟨rfl, rfl⟩)
    uncommented := hstill plain_commentScanner ⟨rfl, rfl⟩
    whole := hstill (plain_but rfl) ⟨rfl, rfl⟩
    noNote := isNoteStart_of_head hb hnote
    read := hread }

theorem says_header (d : Direction) : Says (header d) (.header d) := by
  cases d with
  | leftRight =>
    have hbland : (header .leftRight).all isBland = true := by decide
    have hsnug : Text.Snug (header .leftRight) :=
      ⟨⟨'f', _, rfl, rfl⟩, ⟨"flowchart L".toList, 'R', rfl, rfl⟩⟩
    exact .of_plain rfl hsnug hbland (by decide) rfl
  | topDown =>
    have hbland : (header .topDown).all isBland = true := by decide
    have hsnug : Text.Snug (header .topDown) :=
      ⟨⟨'f', _, rfl, rfl⟩, ⟨"flowchart T".toList, 'D', rfl, rfl⟩⟩
    exact .of_plain rfl hsnug hbland (by decide) rfl

theorem says_end : Says "end".toList .endSubgraph := by
  have hbland : "end".toList.all isBland = true := by decide
  have hsnug : Text.Snug "end".toList := ⟨⟨'e', _, rfl, rfl⟩, ⟨"en".toList, 'd', rfl, rfl⟩⟩
  exact .of_plain rfl hsnug hbland (by decide) rfl

theorem Title.snug (t : Title) : Text.Snug t.chars :=
  Text.snug_of_forall t.nonempty fun c hc => (t.plain c hc).2

/-- A name without quotes is what follows the keyword. -/
theorem readSubgraph?_title (t : Title) :
    readSubgraph? ("subgraph ".toList ++ t.chars) = some (String.ofList t.chars) := by
  have hword : afterWord? "subgraph".toList ("subgraph ".toList ++ t.chars) =
      some (' ' :: t.chars) := rfl
  have htrim : Text.trim (' ' :: t.chars) = t.chars := by
    have hpad := Text.trim_pad (isBlank_of_mem_blanks (i := 1)) (isBlank_of_mem_blanks (i := 0)) t.snug
    simpa [blanks] using hpad
  have hunquote : Text.unquote (' ' :: t.chars) = t.chars := by
    rw [Text.unquote, htrim]
    split
    · next r h =>
      have hquote := (t.plain '"' (h ▸ List.mem_cons_self)).1
      exact absurd hquote (by decide)
    · rfl
  have hblank : Text.isBlank ' ' = true := rfl
  rw [readSubgraph?, hword]
  simp [hblank, hunquote]

theorem Title.says (t : Title) :
    Says ("subgraph ".toList ++ t.chars) (.beginSubgraph (String.ofList t.chars)) := by
  have hbland : ("subgraph ".toList ++ t.chars).all isBland = true := by
    have hkeyword : "subgraph ".toList.all isBland = true := by decide
    rw [List.all_append, hkeyword, Bool.true_and, List.all_eq_true]
    intro c hc
    rw [isBland, (t.plain c hc).1, Bool.true_or]
  have hheader : readHeader? ("subgraph ".toList ++ t.chars) = none := rfl
  have hend : "subgraph ".toList ++ t.chars ≠ "end".toList := by simp
  refine .of_plain rfl ⟨⟨'s', _, rfl, rfl⟩, t.snug.closes.append "subgraph ".toList⟩ hbland
    (by decide) ?_
  change Statement.read ("subgraph ".toList ++ t.chars) = _
  rw [Statement.read, hheader, if_neg hend, readSubgraph?_title]

def Items.statements : Items → List Statement
  | done => []
  | path p rest => .chain p.chain :: rest.statements
  | node x rest => .node x.ref :: rest.statements
  | subgraph t inside rest =>
    .beginSubgraph (String.ofList t.chars) :: inside.statements ++ .endSubgraph :: rest.statements

/-- Every line of the items makes its statement. -/
theorem Items.says (items : Items) : List.Forall₂ Says items.lines items.statements := by
  induction items with
  | done => exact .nil
  | path p rest ih => exact .cons p.says ih
  | node x rest ih => exact .cons x.says ih
  | subgraph t inside rest hinside hrest =>
    exact List.rel_append (List.Forall₂.cons t.says hinside) (.cons says_end hrest)

end Flowchart.Script
