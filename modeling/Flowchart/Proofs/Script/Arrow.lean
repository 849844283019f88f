import Flowchart.Proofs.Script.RoundTrip

namespace Flowchart.Script

open Source

def arrow : Connector := ⟨['-', '-', '>'], .solid, .arrow⟩

def hopTo (y : Name) : Hop where
  connector := arrow
  known := by decide
  caption := none
  group := ⟨⟨y, none⟩, []⟩

structure Spoken (line : List Char) : Prop where
  snug : Text.Snug line
  plain : ∃ c r, line = c :: r ∧ isPlain c = true
  oneLine : '\n' ∉ line
  uncommented : commentScanner.Still {} line
  noNote : isNoteStart line = false

structure Tame (y : Name) (body : List Char) : Prop where
  parted : Parted (body ++ (hopTo y).print)
  oneLine : '\n' ∉ body
  uncommented : commentScanner.Still {} body

structure Kept (x y : Name) (body : List Char) : Prop extends Tame y body where
  whole : (shownScanner (· != ';')).Still .neutral body
  single : (shownScanner (· != '&')).Still .neutral body
  unlabelled : pipeScanner.Still {} body
  split : splitConnectors? (x.chars ++ body ++ (hopTo y).print) =
    some (x.chars ++ body ++ blanks 1, cuts [hopTo y])

theorem Name.still {σ : Type} {m : Scanner σ} {n : σ} (hplain : Plain m n) (x : Name) :
    m.Still n x.chars :=
  Scanner.still_of_forall fun c hc => hplain c (isPlain_of_isNameChar (x.legal c hc))

theorem print_hopTo (y : Name) : (hopTo y).print = " --> ".toList ++ y.chars := by
  simp [hopTo, arrow, Hop.print, Group.print, Mention.print]

theorem hopTo_still {σ : Type} {m : Scanner σ} {n : σ} (hplain : Plain m n)
    (hmark : m.Still n " --> ".toList) (y : Name) : m.Still n (hopTo y).print := by
  rw [print_hopTo]
  exact hmark.append (y.still hplain)

/-- What stands between two names in a line may be anything that neither goes on with the first name
nor begins a comment. -/
theorem spoken_between (x y : Name) {middle : List Char} (hparted : Parted (middle ++ y.chars))
    (hfeed : '\n' ∉ middle) (hcomment : commentScanner.Still {} middle) :
    Spoken (x.chars ++ (middle ++ y.chars)) := by
  obtain ⟨c, rest, hfirst⟩ := List.exists_cons_of_ne_nil x.nonempty
  have hc : c ∈ x.chars := hfirst ▸ List.mem_cons_self
  exact {
    snug := ⟨x.snug.leads.append _, (y.snug.closes.append _).append _⟩
    plain := ⟨c, _, by rw [hfirst]; rfl, isPlain_of_isNameChar (x.legal c hc)⟩
    oneLine := lineScanner_still_iff.1 ((x.still plain_lineScanner).append
      ((lineScanner_still_iff.2 hfeed).append (y.still plain_lineScanner)))
    uncommented := (x.still plain_commentScanner).append
      (hcomment.append (y.still plain_commentScanner))
    noNote := isNoteStart_name x hparted }

theorem Tame.spoken {y : Name} {body : List Char} (h : Tame y body) (x : Name) :
    Spoken (x.chars ++ body ++ (hopTo y).print) := by
  have hform : body ++ (hopTo y).print = body ++ " --> ".toList ++ y.chars := by
    rw [print_hopTo, List.append_assoc]
  have hfeed : '\n' ∉ body ++ " --> ".toList := by simp [h.oneLine]
  rw [List.append_assoc, hform]
  exact spoken_between x y (hform ▸ h.parted) hfeed (h.uncommented.append rfl)

/-- A text that shows no start of a connector is cut off in front of the arrow. -/
theorem splitConnectors?_hopTo {token : List Char} (h : (shownScanner isBare).Still .neutral token)
    (y : Name) :
    splitConnectors? (token ++ (hopTo y).print) = some (token ++ blanks 1, cuts [hopTo y]) := by
  have hcut := cutConnectors_cells h (hopTo y).print
  have hhop := cutConnectors_hops [hopTo y]
  rw [List.flatMap_singleton] at hhop
  rw [hhop] at hcut
  rw [splitConnectors?, hcut]
  rfl

section Kept

variable {x y : Name} {body : List Char} (h : Kept x y body)
include h

/-- Whatever the text, the line is an arrow from the node that the token in front of it refers to. -/
theorem Kept.readChain? {r : NodeRef} (hr : readRef? (x.chars ++ body ++ blanks 1) = some r) :
    readChain? (x.chars ++ body ++ (hopTo y).print) = some ⟨[r], [(hopTo y).link]⟩ := by
  have hlabel : takeLabel (x.chars ++ body ++ blanks 1) = (none, x.chars ++ body ++ blanks 1) := by
    have hpipe := (x.still (plain_pipeScanner 0)).append h.unlabelled
    have hblank : pipeScanner.Still {} (blanks 1) := rfl
    rw [takeLabel, cutAtPipe?_of_run? (hpipe.append hblank)]
  have hgroup : readGroup? (x.chars ++ body ++ blanks 1) = some [r] := by
    have hwhole := ((x.still (plain_but rfl)).append h.single).append (still_blanks still_and_blank 1)
    rw [readGroup?, groupParts_of_still hwhole, List.mapM_cons, hr]
    rfl
  have hlinks := readLinks?_cuts [hopTo y]
  rw [Source.readChain?, h.split]
  simp only [Option.bind_eq_bind, Option.bind_some, hlabel, hgroup, hlinks]
  rfl

theorem Kept.says {r : NodeRef} (hr : readRef? (x.chars ++ body ++ blanks 1) = some r) :
    Says (x.chars ++ body ++ (hopTo y).print) (.chain ⟨[r], [(hopTo y).link]⟩) := by
  have hsemicolon := plain_but (d := ';') rfl
  have hform := List.append_assoc x.chars body (hopTo y).print
  have hspoken := h.toTame.spoken x
  exact { hspoken with
    whole := ((x.still hsemicolon).append h.whole).append (hopTo_still hsemicolon rfl y)
    read := by
      rw [hform, read_name x h.parted, ← hform, h.readChain? hr]
      rfl }

end Kept

theorem Spoken.lines {line : List Char} (h : Spoken line) : Text.lines line = [line] := by
  have hjoin : Text.join ['\n'] [line] = line := List.append_nil line
  rw [← hjoin, Text.lines_join (List.forall_mem_singleton.2 h.snug)
    (List.forall_mem_singleton.2 h.oneLine), hjoin]

theorem Spoken.statementsOf {line : List Char} (h : Spoken line) :
    statementsOf line = (statements line).map Statement.read := by
  obtain ⟨c, r, hline, hc⟩ := h.plain
  have hpercent : '%' ≠ c := (ne_of_isPlain hc rfl).symm
  have hempty : line.isEmpty = false := by simp [hline]
  have hinit : initPayload? line = none := by
    simp [initPayload?, afterBlanks?, hline, List.isPrefixOf?, hpercent]
  have hcomment : isComment line = false := by
    simp [isComment, hline, List.isPrefixOf, hpercent]
  have hdrop : dropComment false line = line := dropComment_of_run? (n := {}) h.uncommented
  have hsaid : said false line = ((statements line).map Statement.read, false) := by
    simp only [said, h.snug.trim, hempty, hinit, hcomment, withoutComment, hdrop, h.noNote,
      Option.isSome_none, Bool.or_self, Bool.false_eq_true, if_false]
  rw [Source.statementsOf, h.lines, saidBy, hsaid, saidBy, List.append_nil]

/-- The document of a source of one line. -/
theorem Says.readWith {line : List Char} {st : Statement} (h : Says line st) (t : Theme) :
    Source.readWith t (String.ofList line) =
      ⟨(({} : State).apply (.ofTheme t) st).finish, none⟩ := by
  have hspoken : Spoken line := { h with }
  rw [Source.readWith, readLines, String.toList_ofList, hspoken.lines, List.foldl_cons,
    h.progress (.ofTheme t) rfl]
  rfl

/-- Classes without properties change nothing in the end. -/
theorem finish_of_unclassed {s : State} (hstyles : s.nodeStyles = .empty)
    (hclasses : s.classStyles = .empty) : s.finish = s.graph := by
  have hnames (names : List String) (nodes : Table String Node) :
      names.foldl (fun nodes _ => nodes) nodes = nodes := by
    induction names with
    | nil => rfl
    | cons _ rest ih => exact ih
  have hentries (entries : List (String × List String)) (nodes : Table String Node) :
      entries.foldl (fun nodes e => e.2.foldl (fun nodes _ => nodes) nodes) nodes = nodes := by
    induction entries with
    | nil => rfl
    | cons e rest ih => rw [List.foldl_cons, hnames, ih]
  rw [State.finish, hstyles, hclasses]
  simp only [Table.find?_empty, hentries]
  rfl

section Link

variable (d : Defaults) (a b : NodeRef) (k : Connector) (label : Option String)

def linkGraph : Graph := (({} : State).apply d (.chain ⟨[a], [⟨k, label, [b]⟩]⟩)).finish

theorem linkGraph_eq : linkGraph d a b k label =
    { [a, b].foldl (State.ensureNode d {}) {} with
      edges := [freshEdge d .empty a.id b.id label k] } := by
  have hfinish : linkGraph d a b k label =
      (({} : State).addChain d ⟨[a], [⟨k, label, [b]⟩]⟩).graph := by
    apply finish_of_unclassed
    · exact State.nodeStyles_apply {} (.chain ⟨[a], [⟨k, label, [b]⟩]⟩)
    · exact State.classStyles_apply {} (.chain ⟨[a], [⟨k, label, [b]⟩]⟩)
  rw [hfinish, State.graph_addChain]
  rfl

theorem keys_linkGraph : (linkGraph d a b k label).nodes.keys = State.addKey [a.id] b.id := by
  rw [linkGraph_eq]
  exact State.keys_foldl_ensureNode {} [a, b] {}

theorem edges_linkGraph : (linkGraph d a b k label).edges.map
    (fun e => (e.source, e.target, e.label)) = [(a.id, b.id, label)] := by
  rw [linkGraph_eq]
  rfl

theorem node?_linkGraph : (linkGraph d a b k label).node? a.id = some (freshNode d none a) := by
  have hfirst : (State.ensureNode d {} {} a).nodes.entries = [(a.id, freshNode d none a)] :=
    State.entries_ensureNode {} {} a
  apply Table.find?_eq_some_iff.2
  rw [linkGraph_eq]
  change _ ∈ (State.ensureNode d {} (State.ensureNode d {} {} a) _).nodes.entries
  rw [State.entries_ensureNode, hfirst]
  split
  · exact List.mem_cons_self
  · exact List.mem_cons_self

end Link

end Flowchart.Script
