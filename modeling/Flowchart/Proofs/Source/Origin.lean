import Flowchart.Proofs.Source.Aside
import Flowchart.Proofs.Source.Scan
import Flowchart.Proofs.Source.WellFormed
import Flowchart.Proofs.Text.Marker
import Mathlib.Data.List.Flatten

namespace Flowchart

open scoped List

namespace Text

theorem trim_sublist (s : List Char) : trim s <+ s := (trim_isInfix s).sublist

theorem unquote_sublist (s : List Char) : unquote s <+ s := by
  have htrim := trim_sublist s
  unfold unquote
  dsimp only
  split
  · next r hr =>
    have hrest : r <+ s := (List.sublist_cons_self '"' r).trans (hr ▸ htrim)
    split
    · exact r.dropLast_sublist.trans hrest
    · exact htrim
  · exact htrim

theorem flatten_pieces_sublist (p : Char → Bool) (s : List Char) : (pieces p s).flatten <+ s := by
  induction s with
  | nil => exact List.nil_sublist _
  | cons c s ih =>
    rw [pieces_cons]
    split
    · exact ih.cons c
    · rw [flatten_attach]
      exact ih.cons_cons c

theorem flatten_splitAt_sublist (marker s : List Char) : (splitAt marker s).flatten <+ s := by
  rw [splitAt_eq_splitAtAny]
  exact flatten_piecesAtAny_sublist [marker] 0 s

/-- When every piece is cut, so is the whole. -/
theorem flatten_map_sublist {f : List Char → List Char} (h : ∀ s, f s <+ s)
    (found : List (List Char)) : (found.map f).flatten <+ found.flatten := by
  induction found with
  | nil => exact List.Sublist.refl _
  | cons piece rest ih => exact (h piece).append ih

theorem flatten_items_sublist (separator : Char) (s : List Char) :
    (items separator s).flatten <+ s := by
  have htrimmed := (flatten_map_sublist trim_sublist (pieces (· == separator) s)).trans
    (flatten_pieces_sublist _ s)
  exact List.filter_sublist.flatten.trans htrimmed

theorem headAndRest_sublist (s : List Char) : (headAndRest s).1 <+ s := by
  have hcut : ∀ found, cutAt? isBlank s = some found → found.1 <+ s := by
    induction s with
    | nil => exact fun found h => absurd h (by simp [cutAt?])
    | cons c s ih =>
      intro found h
      rw [cutAt?] at h
      split at h
      · rw [← Option.some.inj h]
        exact List.nil_sublist _
      · obtain ⟨cut, hcut, rfl⟩ := Option.map_eq_some_iff.1 h
        exact (ih cut hcut).cons_cons c
  unfold headAndRest
  cases hfound : cutAt? isBlank s with
  | none => exact List.Sublist.refl s
  | some found => exact hcut found hfound

theorem flatten_lines_sublist (s : List Char) : (lines s).flatten <+ s := by
  have hreturn (piece : List Char) : dropReturn piece <+ piece := by
    unfold dropReturn
    split
    · exact piece.dropLast_sublist
    · exact List.Sublist.refl piece
  have hclose (found : List (List Char)) : (closeLines found).flatten <+ found.flatten := by
    induction found with
    | nil => exact List.Sublist.refl _
    | cons piece rest ih =>
      cases rest with
      | nil =>
        rw [closeLines]
        split
        · exact List.nil_sublist _
        · exact List.Sublist.refl _
      | cons next rest => exact (hreturn piece).append ih
  exact (hclose _).trans (flatten_pieces_sublist _ s)

end Text

namespace Source

structure NodeRef.From (source : List Char) (r : NodeRef) : Prop where
  id : r.id.toList <+ source
  label : ∀ label ∈ r.label, label.toList <+ source

theorem NodeRef.From.mono {source more : List Char} {r : NodeRef} (h : r.From source)
    (hsub : source <+ more) : r.From more :=
  ⟨h.id.trans hsub, fun label hlabel => (h.label label hlabel).trans hsub⟩

theorem wrapped?_sublist {s label : List Char} {shape : NodeShape}
    (h : wrapped? s = some (label, shape)) : label <+ s := by
  obtain ⟨w, -, inside, rfl, rfl, -⟩ := exists_of_wrapped? h
  have hinside : inside <+ w.opening ++ inside ++ w.closing :=
    (List.sublist_append_right _ _).trans (List.sublist_append_left _ _)
  exact (Text.unquote_sublist inside).trans hinside

theorem readBase?_sublist {base id : List Char} {wrapper : Option (List Char × NodeShape)}
    (h : readBase? base = some (id, wrapper)) :
    id <+ base ∧ ∀ label ∈ wrapper.map Prod.fst, label <+ base := by
  have htext := Text.trim_sublist base
  obtain ⟨-, ⟨rfl, rfl⟩ | ⟨label, shape, rfl, hwrapped, hid⟩⟩ := readBase?_eq_some h
  · exact ⟨htext, fun label hlabel => absurd hlabel (by simp)⟩
  · have hlabel : label <+ base := by
      have hdrop := List.dropWhile_sublist (!isShapeOpener ·) (l := Text.trim base)
      exact (wrapped?_sublist hwrapped).trans (hdrop.trans htext)
    have hname : Text.trim ((Text.trim base).takeWhile (!isShapeOpener ·)) <+ base := by
      have htake := List.takeWhile_sublist (!isShapeOpener ·) (l := Text.trim base)
      exact (Text.trim_sublist _).trans (htake.trans htext)
    refine ⟨?_, fun inside hinside => ?_⟩
    · rcases hid with rfl | rfl
      · exact hlabel
      · exact hname
    · obtain rfl : label = inside := by simpa using hinside
      exact hlabel

theorem from_readRef? {token : List Char} {r : NodeRef} (h : readRef? token = some r) :
    r.From token := by
  have hpieces := Text.flatten_splitAt_sublist classMarker token
  obtain ⟨base, classes, hsplit, id, wrapper, hfound, hname, hlabels, -⟩ := exists_of_readRef? h
  rw [hsplit] at hpieces
  have hbase : base <+ token := (List.sublist_append_left base _).trans hpieces
  obtain ⟨hid, hlabel⟩ := readBase?_sublist hfound
  constructor
  · simpa [hname] using hid.trans hbase
  · intro label hmem
    rw [hlabels] at hmem
    obtain ⟨⟨inside, shape⟩, rfl, rfl⟩ := Option.map_eq_some_iff.1 hmem
    simpa using (hlabel inside rfl).trans hbase

theorem flatten_groupParts_sublist (token : List Char) : (groupParts token).flatten <+ token := by
  have hfrom (n : Nesting) : (groupPartsFrom n token).flatten <+ token := by
    induction token generalizing n with
    | nil => exact List.nil_sublist _
    | cons c token ih =>
      rw [groupPartsFrom]
      split
      · exact (ih n).cons c
      · rw [Text.flatten_attach]
        exact (ih _).cons_cons c
  exact hfrom .neutral

theorem from_readGroup? {token : List Char} {group : List NodeRef}
    (h : readGroup? token = some group) : ∀ r ∈ group, r.From token := by
  intro r hr
  obtain ⟨part, hpart, href⟩ := exists_of_mem_mapM h r hr
  exact (from_readRef? href).mono
    ((List.sublist_flatten_of_mem hpart).trans (flatten_groupParts_sublist token))

theorem cutConnectors_sublist (skip : Nat) (line : List Cell) :
    (cutConnectors skip line).1 ++ (cutConnectors skip line).2.flatMap Prod.snd <+
      line.map Cell.char := by
  induction line generalizing skip with
  | nil =>
    have hnil : cutConnectors skip [] = ([], []) := by cases skip <;> rfl
    rw [hnil]
    exact List.nil_sublist _
  | cons c r ih =>
    cases skip with
    | succ skip => exact (ih skip).cons c.char
    | zero =>
      rw [cutConnectors]
      split
      · next k _ => exact (ih (k.marker.length - 1)).cons c.char
      · exact (ih 0).cons_cons c.char

theorem splitConnectors?_sublist {line token : List Char} {cuts : List (Connector × List Char)}
    (h : splitConnectors? line = some (token, cuts)) : token ++ cuts.flatMap Prod.snd <+ line := by
  have hsub := cutConnectors_sublist 0 (cells line)
  rw [cells, char_cellsFrom] at hsub
  unfold splitConnectors? cells at h
  split at h
  · exact absurd h (by simp)
  · rw [Option.some.inj h] at hsub
    exact hsub

theorem cutAtPipe?_sublist {n m : PipeNesting} {s before after : List Char}
    (h : cutAtPipe? n s = some (before, m, after)) : before ++ after <+ s := by
  induction s generalizing n before with
  | nil => exact absurd h (by simp [cutAtPipe?])
  | cons c r ih =>
    rw [cutAtPipe?] at h
    split at h
    · obtain ⟨rfl, hrest⟩ := Prod.mk.inj (Option.some.inj h)
      obtain ⟨-, rfl⟩ := Prod.mk.inj hrest
      exact List.sublist_cons_self c r
    · obtain ⟨⟨before', m', after'⟩, hcut, hcons⟩ := Option.map_eq_some_iff.1 h
      obtain ⟨rfl, hrest⟩ := Prod.mk.inj hcons
      obtain ⟨rfl, rfl⟩ := Prod.mk.inj hrest
      exact (ih hcut).cons_cons c

theorem takeLabel_sublist (token : List Char) :
    (∀ label ∈ (takeLabel token).1, label <+ token) ∧ (takeLabel token).2 <+ token := by
  have hwhole : (∀ label ∈ (none : Option (List Char)), label <+ token) ∧ token <+ token :=
    ⟨fun label hlabel => absurd hlabel (by simp), List.Sublist.refl token⟩
  unfold takeLabel
  split
  · exact hwhole
  next before n r hfirst =>
  have hr := cutAtPipe?_sublist hfirst
  split
  · exact hwhole
  next inside m after hsecond =>
  have hrest := cutAtPipe?_sublist hsecond
  constructor
  · intro label hlabel
    have hfound : Text.unquote inside = label := by
      dsimp only at hlabel
      split at hlabel
      · exact absurd hlabel (by simp)
      · exact Option.some.inj hlabel
    have hinside : inside <+ r := (List.sublist_append_left inside after).trans hrest
    rw [← hfound]
    exact (Text.unquote_sublist inside).trans
      (hinside.trans ((List.sublist_append_right before r).trans hr))
  · have hafter : after <+ r := (List.sublist_append_right inside after).trans hrest
    exact ((List.Sublist.refl before).append hafter).trans hr

structure Chain.From (source : List Char) (c : Chain) : Prop where
  refs : ∀ r ∈ c.refs, r.From source
  labels : ∀ link ∈ c.links, ∀ label ∈ link.label, label.toList <+ source

theorem from_readLinks? {source : List Char} {early : Option (List Char)}
    {tokens : List (Connector × List Char)} {links : List Link}
    (h : readLinks? early tokens = some links) (hearly : ∀ label ∈ early, label <+ source)
    (htokens : ∀ cut ∈ tokens, cut.2 <+ source) :
    (∀ r ∈ links.flatMap (·.group), r.From source) ∧
      ∀ link ∈ links, ∀ label ∈ link.label, label.toList <+ source := by
  induction tokens generalizing early links with
  | nil =>
    obtain rfl : [] = links := Option.some.inj h
    exact ⟨fun r hr => absurd hr List.not_mem_nil, fun link hlink => absurd hlink List.not_mem_nil⟩
  | cons cut rest ih =>
    obtain ⟨k, token⟩ := cut
    obtain ⟨htoken, hrest⟩ := List.forall_mem_cons.1 htokens
    obtain ⟨hlate, hnodes⟩ := takeLabel_sublist token
    rw [readLinks?] at h
    obtain ⟨group, hgroup, h⟩ := Option.bind_eq_some_iff.1 h
    obtain ⟨others, hothers, h⟩ := Option.bind_eq_some_iff.1 h
    obtain rfl := Option.some.inj h
    obtain ⟨hrefs, hlabels⟩ := ih hothers (fun label hlabel => absurd hlabel (by simp)) hrest
    constructor
    · rw [List.flatMap_cons]
      refine List.forall_mem_append.2 ⟨fun r hr => ?_, hrefs⟩
      exact (from_readGroup? hgroup r hr).mono (hnodes.trans htoken)
    · refine List.forall_mem_cons.2 ⟨fun label hlabel => ?_, hlabels⟩
      obtain ⟨found, hfound, rfl⟩ := Option.map_eq_some_iff.1 hlabel
      rw [String.toList_ofList]
      -- a label in front of the connector comes before the one after it
      cases early with
      | some text =>
        rw [← Option.some.inj hfound]
        exact hearly text rfl
      | none => exact (hlate found hfound).trans htoken

theorem from_readChain? {line : List Char} {c : Chain} (h : readChain? line = some c) :
    c.From line := by
  obtain ⟨⟨token, cuts⟩, hsplit, h⟩ := Option.bind_eq_some_iff.1 h
  obtain ⟨first, hfirst, h⟩ := Option.bind_eq_some_iff.1 h
  obtain ⟨links, hlinks, h⟩ := Option.bind_eq_some_iff.1 h
  obtain rfl := Option.some.inj h
  have hparts := splitConnectors?_sublist hsplit
  have htoken : token <+ line := (List.sublist_append_left token _).trans hparts
  have hcuts : ∀ cut ∈ cuts, cut.2 <+ line := by
    intro cut hcut
    have hcut : cut.2 <+ cuts.flatMap Prod.snd := by
      rw [List.flatMap_def]
      exact List.sublist_flatten_of_mem (List.mem_map_of_mem hcut)
    exact hcut.trans ((List.sublist_append_right token _).trans hparts)
  obtain ⟨hearly, hnodes⟩ := takeLabel_sublist token
  obtain ⟨hrefs, hlabels⟩ := from_readLinks? hlinks
    (fun label hlabel => (hearly label hlabel).trans htoken) hcuts
  refine ⟨List.forall_mem_append.2 ⟨fun r hr => ?_, hrefs⟩, hlabels⟩
  exact (from_readGroup? hfirst r hr).mono (hnodes.trans htoken)

def Statement.From (source : List Char) : Statement → Prop
  | .beginSubgraph name => name.toList <+ source
  | .chain c => c.From source
  | .node r => r.From source
  | .styleNodes ids _ => ∀ id ∈ ids, id.toList <+ source
  | _ => True

theorem Statement.From.mono {source more : List Char} {st : Statement} (h : st.From source)
    (hsub : source <+ more) : st.From more := by
  cases st with
  | beginSubgraph name => exact List.Sublist.trans h hsub
  | chain c =>
    refine ⟨fun r hr => (h.refs r hr).mono hsub, fun link hlink label hlabel => ?_⟩
    exact (h.labels link hlink label hlabel).trans hsub
  | node r => exact NodeRef.From.mono h hsub
  | styleNodes ids ps => exact fun id hid => (h id hid).trans hsub
  | header | endSubgraph | defineClasses | assignClasses | styleEdges | styleLinks | nothing =>
    exact trivial

theorem afterWord?_sublist {word s rest : List Char} (h : afterWord? word s = some rest) :
    rest <+ s := by
  rw [afterWord?, List.isPrefixOf?_eq_some_iff_append_eq] at h
  rw [← h]
  exact List.sublist_append_right word rest

theorem afterKeyword?_sublist {keyword : String} {s rest : List Char}
    (h : afterKeyword? keyword s = some rest) : rest <+ s := by
  unfold afterKeyword? at h
  split at h
  · next hword =>
    split at h
    · rw [← Option.some.inj h]
      exact (Text.trim_sublist _).trans (afterWord?_sublist hword)
    · exact absurd h (by simp)
  · exact absurd h (by simp)

theorem readSubgraph?_sublist {s : List Char} {name : String} (h : readSubgraph? s = some name) :
    name.toList <+ s := by
  unfold readSubgraph? at h
  split at h
  · rw [← Option.some.inj h]
    exact List.nil_sublist s
  · next hword =>
    split at h
    · rw [← Option.some.inj h, String.toList_ofList]
      exact (Text.unquote_sublist _).trans (afterWord?_sublist hword)
    · exact absurd h (by simp)
  · exact absurd h (by simp)

theorem readStyled?_sublist {rest target : List Char} {ps : Properties}
    (h : readStyled? rest = some (target, ps)) : target <+ rest := by
  unfold readStyled? at h
  dsimp only at h
  split at h
  · exact absurd h (by simp)
  · obtain ⟨rfl, -⟩ := Prod.mk.inj (Option.some.inj h)
    exact (Text.trim_sublist _).trans (Text.headAndRest_sublist rest)

theorem from_readStyle (rest : List Char) : (readStyle rest).From rest := by
  unfold readStyle
  split
  · exact trivial
  next target ps hstyled =>
  split
  · dsimp only
    split
    · exact trivial
    · exact trivial
  · intro id hid
    obtain ⟨item, hitem, rfl⟩ := List.mem_map.1 hid
    rw [String.toList_ofList]
    exact (List.sublist_flatten_of_mem hitem).trans
      ((Text.flatten_items_sublist ',' target).trans (readStyled?_sublist hstyled))

theorem from_read (s : List Char) : (Statement.read s).From s := by
  have hassign (rest : List Char) : (readAssignment rest).From s := by
    unfold readAssignment
    split
    · exact trivial
    · exact trivial
  unfold Statement.read
  split
  · exact trivial
  split
  · exact trivial
  split
  · next name hname => exact readSubgraph?_sublist hname
  split
  · split
    · exact trivial
    · exact trivial
  split
  · exact hassign _
  split
  · next rest hrest => exact (from_readStyle rest).mono (afterKeyword?_sublist hrest)
  split
  · split
    · exact trivial
    · exact trivial
  split
  · next c hchain => exact from_readChain? hchain
  split
  · next r hnode => exact from_readRef? (Option.filter_eq_some_iff.1 hnode).1
  · exact trivial

theorem flatten_statements_sublist (line : List Char) : (statements line).flatten <+ line := by
  have hclose (current : List Char) (others : List (List Char)) :
      (statementsFrom.close current others).flatten <+ current.reverse ++ others.flatten := by
    unfold statementsFrom.close
    dsimp only
    split
    · exact List.sublist_append_right _ _
    · exact (Text.trim_sublist _).append (List.Sublist.refl _)
  have hfrom (s : List Char) (n : Nesting) (current : List Char) :
      (statementsFrom n current s).flatten <+ current.reverse ++ s := by
    induction s generalizing n current with
    | nil => exact hclose current []
    | cons c r ih =>
      rw [statementsFrom]
      split
      · exact (hclose current _).trans ((List.Sublist.refl _).append ((ih n []).cons c))
      · have hread := ih (n.next c) (c :: current)
        rwa [List.reverse_cons, List.append_assoc, List.singleton_append] at hread
  exact hfrom line .neutral []

theorem withoutComment_sublist (line : List Char) : withoutComment line <+ line := by
  have hdrop (quoted : Bool) : dropComment quoted line <+ line := by
    induction line generalizing quoted with
    | nil => exact List.Sublist.refl _
    | cons c r ih =>
      rw [dropComment_cons]
      split
      · exact List.nil_sublist _
      · exact (ih _).cons_cons c
  exact (Text.trim_sublist _).trans (hdrop false)

/-- The statements of a line are read from pieces of it. -/
theorem exists_pieces_said (inNote : Bool) (line : List Char) :
    ∃ pieces : List (List Char), (said inNote line).1 = pieces.map Statement.read ∧
      pieces.flatten <+ line := by
  have hnone : ∃ pieces : List (List Char), [] = pieces.map Statement.read ∧
      pieces.flatten <+ line := ⟨[], rfl, List.nil_sublist line⟩
  unfold said
  dsimp only
  split
  · exact hnone
  split
  · exact hnone
  split
  · exact hnone
  split
  · exact hnone
  split
  · exact hnone
  · exact ⟨_, rfl, (flatten_statements_sublist _).trans
      ((withoutComment_sublist _).trans (Text.trim_sublist line))⟩

/-- The statements of a source are read from pieces of it. -/
theorem exists_pieces_statementsOf (source : List Char) :
    ∃ pieces : List (List Char), statementsOf source = pieces.map Statement.read ∧
      pieces.flatten <+ source := by
  have hlines (inNote : Bool) (lines : List (List Char)) :
      ∃ pieces : List (List Char), saidBy inNote lines = pieces.map Statement.read ∧
        pieces.flatten <+ lines.flatten := by
    induction lines generalizing inNote with
    | nil => exact ⟨[], rfl, List.Sublist.refl _⟩
    | cons line rest ih =>
      obtain ⟨first, hfirst, hfirstSub⟩ := exists_pieces_said inNote line
      obtain ⟨others, hothers, hothersSub⟩ := ih (said inNote line).2
      refine ⟨first ++ others, ?_, ?_⟩
      · rw [saidBy, hfirst, hothers, List.map_append]
      · rw [List.flatten_append, List.flatten_cons]
        exact hfirstSub.append hothersSub
  obtain ⟨pieces, hpieces, hsub⟩ := hlines false (Text.lines source)
  exact ⟨pieces, hpieces, hsub.trans (Text.flatten_lines_sublist source)⟩

theorem from_statementsOf (source : List Char) : ∀ st ∈ statementsOf source, st.From source := by
  obtain ⟨pieces, hpieces, hsub⟩ := exists_pieces_statementsOf source
  rw [hpieces]
  intro st hst
  obtain ⟨piece, hpiece, rfl⟩ := List.mem_map.1 hst
  exact (from_read piece).mono ((List.sublist_flatten_of_mem hpiece).trans hsub)

end Source
end Flowchart
