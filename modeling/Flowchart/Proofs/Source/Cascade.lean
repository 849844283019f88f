import Flowchart.Proofs.Source.Grounded

namespace Flowchart

namespace Table

variable {κ ν : Type} [DecidableEq κ]

theorem find?_insert_or (t : Table κ ν) (a k : κ) (v : ν) :
    (t.insert a v).find? k = (if a = k then some v else none).or (t.find? k) := by
  rw [find?_insert]
  by_cases hk : a = k
  · rw [if_pos hk.symm, if_pos hk, Option.some_or]
  · rw [if_neg (Ne.symm hk), if_neg hk, Option.none_or]

/-- A value that is read under a key is the last one read there. -/
theorem getLast?_filterMap_entries {β : Type} (t : Table κ ν) (k : κ) (read : ν → Option β) :
    (t.entries.filterMap fun e => if e.1 = k then read e.2 else none).getLast? =
      (t.find? k).bind read := by
  rw [filterMap_entries]
  cases (t.find? k).bind read <;> rfl

/-- Of two tables put together the second one decides. -/
theorem find?_insertAll (t u : Table κ ν) (k : κ) :
    (t.insertAll u).find? k = (u.find? k).or (t.find? k) := by
  have hall := Source.foldl_sets (·.find? k) _ (fun t e => find?_insert_or t e.1 k e.2) u.entries t
  rwa [getLast?_filterMap_entries, Option.bind_fun_some] at hall

/-- Changes under the keys of a table, each of which leaves the values under other keys. -/
theorem find?_foldl_changes {α : Type} (changes : Table κ α) {k : κ} (f : α → ν → ν)
    {change : Table κ ν → κ × α → Table κ ν}
    (h : ∀ t e, (change t e).find? k = if k = e.1 then (t.find? k).map (f e.2) else t.find? k)
    (t : Table κ ν) :
    (changes.entries.foldl change t).find? k =
      (t.find? k).map fun v => (changes.find? k).elim v (f · v) := by
  have hchanges : changes.find? k = (changes.entries.find? (·.1 = k)).map (·.2) := rfl
  rw [hchanges]
  have hdistinct := changes.distinct
  revert hdistinct
  generalize changes.entries = entries
  intro hdistinct
  induction entries generalizing t with
  | nil => exact Option.map_id'.symm
  | cons e rest ih =>
    obtain ⟨hfirst, hrest⟩ := List.nodup_cons.1 hdistinct
    rw [List.foldl_cons, ih _ hrest, h]
    by_cases hk : k = e.1
    · have hnone : rest.find? (·.1 = k) = none := by
        rw [List.find?_eq_none]
        intro d hd hkey
        exact hfirst (List.mem_map.2 ⟨d, hd, (of_decide_eq_true hkey).trans hk⟩)
      rw [hnone, List.find?_cons_of_pos (by simp [hk]), if_pos hk, Option.map_map]
      rfl
    · rw [List.find?_cons_of_neg (by simp [Ne.symm hk]), if_neg hk]

end Table

namespace Source

def Statement.styleOf? (id : String) : Statement → Option Properties
  | .styleNodes ids ps => if id ∈ ids then some ps else none
  | _ => none

def Statement.bundleOf? (className : String) : Statement → Option Properties
  | .defineClasses names ps => if className ∈ names then some ps else none
  | _ => none

def classesIn (id : String) (refs : List NodeRef) : List String :=
  (refs.filter (·.id = id)).flatMap (·.classes)

def Statement.classesOf (id : String) : Statement → List String
  | .assignClasses ids classes => if id ∈ ids then classes else []
  | .chain c => classesIn id c.refs
  | .node r => classesIn id [r]
  | _ => []

def inlineValue? (statements : List Statement) (id name : String) : Option String :=
  (statements.filterMap fun st => (st.styleOf? id).bind (·.find? name)).getLast?

/-- The properties of a class, as it was defined last. -/
def bundle? (statements : List Statement) (className : String) : Option Properties :=
  (statements.filterMap (Statement.bundleOf? className)).getLast?

def classesOf (statements : List Statement) (id : String) : List String :=
  (statements.flatMap (Statement.classesOf id)).eraseDups

/-- The values of a property that reach a node, the strongest one last: what its style statements
give it, and then what its classes give it in order. -/
def cascade (statements : List Statement) (id name : String) : List String :=
  (inlineValue? statements id name).toList ++
    (classesOf statements id).filterMap fun c => (bundle? statements c).bind (·.find? name)

/-- A node has the style that the cascade gives it, and the theme's for what no statement says. -/
structure FollowsCascade (t : Theme) (statements : List Statement) (n : Node) : Prop where
  fill : n.fill = ((cascade statements n.id "fill").getLast?.map Color.readOrBlack).getD t.nodeFill
  border : n.border =
    ((cascade statements n.id "stroke").getLast?.map Color.readOrBlack).getD t.nodeBorder
  text : n.textColor =
    ((cascade statements n.id "color").getLast?.map Color.readOrBlack).getD t.textColor
  /-- A width that is no length is passed over, it does not hide the ones before it. -/
  width : n.borderWidth =
    ((cascade statements n.id "stroke-width").filterMap readLength?).getLast?.getD 1.0

theorem styleNode_eq (n : Node) (p : String × String) :
    styleNode n p = { n with
      fill := if p.1 = "fill" then Color.readOrBlack p.2 else n.fill
      border := if p.1 = "stroke" then Color.readOrBlack p.2 else n.border
      borderWidth :=
        if p.1 = "stroke-width" then (readLength? p.2).getD n.borderWidth else n.borderWidth
      textColor := if p.1 = "color" then Color.readOrBlack p.2 else n.textColor } := by
  unfold styleNode
  split
  · simp
  · simp
  · simp
  · simp
  -- none of the four names is the one of the property
  · next hfill hstroke hwidth hcolor =>
    have hne {name : String} (h : ∀ value, p = (name, value) → False) : p.1 ≠ name :=
      fun hname => h p.2 (Prod.ext hname rfl)
    simp only [hne hfill, hne hstroke, hne hwidth, hne hcolor, if_false]

/-- A part of nodes that one property sets, as it is read, and no other. -/
def Governs {β : Type} (name : String) (read : String → Option β) (part : Node → β) : Prop :=
  ∀ n p, part (styleNode n p) = (if p.1 = name then read p.2 else none).getD (part n)

theorem Governs.of_ite {β : Type} {name : String} {read : String → Option β} {part : Node → β}
    (h : ∀ n p, part (styleNode n p) = if p.1 = name then (read p.2).getD (part n) else part n) :
    Governs name read part := by
  intro n p
  rw [h]
  by_cases hname : p.1 = name
  · rw [if_pos hname, if_pos hname]
  · rw [if_neg hname, if_neg hname, Option.getD_none]

theorem governs_fill : Governs "fill" (fun v => some (Color.readOrBlack v)) Node.fill :=
  .of_ite fun n p => congrArg Node.fill (styleNode_eq n p)

theorem governs_border : Governs "stroke" (fun v => some (Color.readOrBlack v)) Node.border :=
  .of_ite fun n p => congrArg Node.border (styleNode_eq n p)

theorem governs_text : Governs "color" (fun v => some (Color.readOrBlack v)) Node.textColor :=
  .of_ite fun n p => congrArg Node.textColor (styleNode_eq n p)

theorem governs_width : Governs "stroke-width" readLength? Node.borderWidth :=
  .of_ite fun n p => congrArg Node.borderWidth (styleNode_eq n p)

section Parts

variable {β : Type} {name : String} {read : String → Option β} {part : Node → β}

theorem Governs.styleNodeAll (h : Governs name read part) (n : Node) (ps : Properties) :
    part (styleNodeAll n ps) = ((ps.find? name).bind read).getD (part n) := by
  have hall := foldl_sets_part part _ h ps.entries n
  rwa [Table.getLast?_filterMap_entries] at hall

def styleOptional (n : Node) (ps : Option Properties) : Node := ps.elim n (styleNodeAll n)

/-- Of many properties, one table after the other, the last value that can be read is taken. -/
theorem Governs.layers (h : Governs name read part) (layers : List (Option Properties)) (n : Node) :
    part (layers.foldl styleOptional n) =
      ((layers.filterMap (·.bind (·.find? name))).filterMap read).getLast?.getD (part n) := by
  rw [List.filterMap_filterMap]
  refine foldl_sets_part part _ (fun n layer => ?_) layers n
  cases layer with
  | none => rfl
  | some ps => exact h.styleNodeAll n ps

end Parts

/-- Of changes that each name a key the last one for a key counts, and all are the same. -/
theorem getLast?_filterMap_named {β : Type} (k : String) (v : Option β) (names : List String) :
    (names.filterMap fun a => if a = k then v else none).getLast? = if k ∈ names then v else none := by
  induction names with
  | nil => rfl
  | cons a rest ih =>
    rw [getLast?_filterMap_cons, ih]
    by_cases ha : a = k
    · by_cases hrest : k ∈ rest <;> simp [ha, hrest]
    · simp [ha, Ne.symm ha]

namespace State

variable {d : Defaults}

def inlineValue? (s : State) (id name : String) : Option String :=
  (s.nodeStyles.find? id).bind (·.find? name)

def classesOf (s : State) (id : String) : List String := (s.classes.find? id).getD []

theorem inlineValue?_apply (s : State) (st : Statement) (id name : String) :
    (s.apply d st).inlineValue? id name =
      ((st.styleOf? id).bind (·.find? name)).or (s.inlineValue? id name) := by
  rw [inlineValue?, nodeStyles_apply]
  cases st with
  | styleNodes ids ps =>
    have hone (t : Table String Properties) (a : String) :
        ((t.update a .empty (·.insertAll ps)).find? id).bind (·.find? name) =
          (if a = id then ps.find? name else none).or ((t.find? id).bind (·.find? name)) := by
      rw [Table.find?_update]
      by_cases ha : a = id
      · subst ha
        rw [if_pos rfl, if_pos rfl, Option.bind_some, Table.find?_insertAll]
        cases t.find? a <;> rfl
      · rw [if_neg (Ne.symm ha), if_neg ha, Option.none_or]
    have hall := foldl_sets (fun t : Table String Properties => (t.find? id).bind (·.find? name)) _
      hone ids s.nodeStyles
    rw [getLast?_filterMap_named] at hall
    refine hall.trans ?_
    rw [Statement.styleOf?]
    by_cases hid : id ∈ ids
    · rw [if_pos hid, if_pos hid, Option.bind_some]
      rfl
    · rw [if_neg hid, if_neg hid, Option.bind_none]
      rfl
  | header | beginSubgraph | endSubgraph | defineClasses | assignClasses | styleEdges | styleLinks
  | chain | node | nothing => rfl

theorem bundle?_apply (s : State) (st : Statement) (className : String) :
    (s.apply d st).classStyles.find? className =
      (st.bundleOf? className).or (s.classStyles.find? className) := by
  rw [classStyles_apply]
  cases st with
  | defineClasses names ps =>
    have hall := foldl_sets (·.find? className) _
      (fun t a => Table.find?_insert_or t a className ps) names s.classStyles
    rw [getLast?_filterMap_named] at hall
    exact hall
  | header | beginSubgraph | endSubgraph | styleNodes | assignClasses | styleEdges | styleLinks
  | chain | node | nothing => rfl

theorem classesOf_assignClass (s : State) (a className id : String) :
    (s.assignClass a className).classesOf id =
      if a = id then addKey (s.classesOf id) className else s.classesOf id := by
  rw [classesOf, assignClass, Table.find?_update]
  by_cases ha : a = id
  · subst ha
    rw [if_pos rfl, if_pos rfl, Option.getD_some, ← classesOf, addKey]
    by_cases hmem : className ∈ s.classesOf a
    · rw [if_pos hmem, if_pos (List.contains_iff_mem.2 hmem)]
    · rw [if_neg hmem, if_neg (mt List.contains_iff_mem.1 hmem)]
  · rw [if_neg (Ne.symm ha), if_neg ha, classesOf]

/-- Classes given to a node one by one. -/
theorem classesOf_foldl_assignClass (s : State) (a id : String) (names : List String) :
    (names.foldl (fun s name => s.assignClass a name) s).classesOf id =
      (if a = id then names else []).foldl addKey (s.classesOf id) := by
  induction names generalizing s with
  | nil => simp
  | cons name rest ih =>
    rw [List.foldl_cons, ih, classesOf_assignClass]
    by_cases ha : a = id
    · simp [ha]
    · simp [ha]

theorem foldl_addKey_of_subset {keys names : List String} (h : names ⊆ keys) :
    names.foldl addKey keys = keys := by
  induction names with
  | nil => rfl
  | cons name rest ih =>
    obtain ⟨hname, hrest⟩ := List.cons_subset.1 h
    rw [List.foldl_cons, addKey, if_pos hname, ih hrest]

theorem classesOf_foldl_touch (refs : List NodeRef) (s : State) (id : String) :
    (refs.foldl (touch d) s).classesOf id = (classesIn id refs).foldl addKey (s.classesOf id) := by
  induction refs generalizing s with
  | nil => rfl
  | cons r rest ih =>
    have hone : (s.touch d r).classesOf id =
        (if r.id = id then r.classes else []).foldl addKey (s.classesOf id) :=
      classesOf_foldl_assignClass _ r.id id r.classes
    have hin : classesIn id (r :: rest) =
        (if r.id = id then r.classes else []) ++ classesIn id rest := by
      by_cases hr : r.id = id <;> simp [classesIn, hr]
    rw [List.foldl_cons, ih, hone, hin, List.foldl_append]

theorem classesOf_apply (s : State) (st : Statement) (id : String) :
    (s.apply d st).classesOf id = (st.classesOf id).foldl addKey (s.classesOf id) := by
  cases st with
  | assignClasses ids classes =>
    -- a node named twice is given classes that it has already
    have hall : ∀ (ids : List String) (s : State),
        (ids.foldl (fun s a => classes.foldl (fun s name => s.assignClass a name) s) s).classesOf id =
          (if id ∈ ids then classes else []).foldl addKey (s.classesOf id) := by
      intro ids
      induction ids with
      | nil =>
        intro s
        rfl
      | cons a rest ih =>
        intro s
        rw [List.foldl_cons, ih, classesOf_foldl_assignClass]
        by_cases ha : a = id
        · have hsub : classes ⊆ classes.foldl addKey (s.classesOf id) :=
            fun name hname => (mem_foldl_addKey classes _).2 (.inr hname)
          have hagain : (if id ∈ rest then classes else []).foldl addKey
              (classes.foldl addKey (s.classesOf id)) = classes.foldl addKey (s.classesOf id) := by
            refine foldl_addKey_of_subset ?_
            split
            · exact hsub
            · exact List.nil_subset _
          rw [if_pos ha, hagain, if_pos (by simp [ha])]
        · rw [if_neg ha, List.foldl_nil]
          simp [Ne.symm ha]
    exact hall ids s
  | chain c =>
    rw [apply, addChain_eq]
    exact classesOf_foldl_touch c.refs s id
  | node r => exact classesOf_foldl_touch [r] s id
  | styleNodes ids ps =>
    exact foldl_keeps (fun s : State => s.classesOf id) (f := styleNode d ps) (fun _ _ => rfl) ids s
  | header | beginSubgraph | endSubgraph | defineClasses | styleEdges | styleLinks | nothing => rfl

section Runs

variable (statements : List Statement)

theorem inlineValue?_run (id name : String) :
    (statements.foldl (apply d) {}).inlineValue? id name =
      Source.inlineValue? statements id name := by
  have hall := foldl_sets (fun s : State => s.inlineValue? id name) _
    (fun s st => inlineValue?_apply (d := d) s st id name) statements {}
  exact hall.trans Option.or_none

theorem bundle?_run (className : String) :
    (statements.foldl (apply d) {}).classStyles.find? className = bundle? statements className := by
  have hall := foldl_sets (fun s : State => s.classStyles.find? className) _
    (fun s st => bundle?_apply (d := d) s st className) statements {}
  exact hall.trans Option.or_none

theorem classesOf_run (id : String) :
    (statements.foldl (apply d) {}).classesOf id = Source.classesOf statements id := by
  have hall (s : State) : (statements.foldl (apply d) s).classesOf id =
      (statements.flatMap (Statement.classesOf id)).foldl addKey (s.classesOf id) := by
    induction statements generalizing s with
    | nil => rfl
    | cons st rest ih =>
      rw [List.foldl_cons, ih, classesOf_apply, List.flatMap_cons, List.foldl_append]
  rw [hall, Source.classesOf, ← foldl_addKey_eq_eraseDups]
  rfl

end Runs

def layers (s : State) (id : String) : List (Option Properties) :=
  s.nodeStyles.find? id :: (s.classesOf id).map s.classStyles.find?

/-- The classes of one identifier change its own node only. -/
theorem find?_foldl_classes (s : State) (id a : String) (names : List String)
    (nodes : Table String Node) :
    (names.foldl (fun nodes name =>
      match s.classStyles.find? name with
      | some ps => nodes.modify a (styleNodeAll · ps)
      | none => nodes) nodes).find? id =
    if id = a then
      (nodes.find? id).map fun n => (names.map s.classStyles.find?).foldl styleOptional n
    else nodes.find? id := by
  induction names generalizing nodes with
  | nil => simp
  | cons name rest ih =>
    rw [List.foldl_cons, ih, List.map_cons]
    cases s.classStyles.find? name with
    | none => rfl
    | some ps =>
      rw [Table.find?_modify]
      by_cases ha : id = a
      · rw [if_pos ha, if_pos ha, if_pos ha, Option.map_map]
        rfl
      · rw [if_neg ha, if_neg ha, if_neg ha]

theorem node?_finish (s : State) (id : String) :
    s.finish.node? id = (s.graph.node? id).map fun n => (s.layers id).foldl styleOptional n := by
  have hinline := Table.find?_foldl_changes s.nodeStyles (k := id) (fun ps n => styleNodeAll n ps)
    (fun nodes e => Table.find?_modify nodes e.1 id _) s.graph.nodes
  have hfinish := Table.find?_foldl_changes s.classes (k := id)
    (fun names n => (names.map s.classStyles.find?).foldl styleOptional n)
    (fun nodes e => s.find?_foldl_classes id e.1 e.2 nodes)
    (s.nodeStyles.entries.foldl (fun nodes e => nodes.modify e.1 (styleNodeAll · e.2)) s.graph.nodes)
  rw [hinline, Option.map_map] at hfinish
  refine hfinish.trans (congrArg (Option.map · (s.graph.node? id)) ?_)
  funext n
  rw [Function.comp_apply, layers, List.foldl_cons, classesOf]
  cases s.classes.find? id <;> rfl

theorem cascade_run (statements : List Statement) (id name : String) :
    ((statements.foldl (apply d) {}).layers id).filterMap (·.bind (·.find? name)) =
      cascade statements id name := by
  have hfirst : ((statements.foldl (apply d) {}).nodeStyles.find? id).bind (·.find? name) =
      Source.inlineValue? statements id name := inlineValue?_run statements id name
  have hbundle (c : String) : ((statements.foldl (apply d) {}).classStyles.find? c) =
      bundle? statements c := bundle?_run statements c
  rw [layers, List.filterMap_cons, hfirst, classesOf_run, List.filterMap_map, cascade]
  simp only [Function.comp_def, hbundle]
  cases Source.inlineValue? statements id name <;> rfl

/-- What the cascade makes of a node that the statements left at the end. -/
theorem exists_start {statements : List Statement} {id : String} {n : Node}
    (h : (statements.foldl (apply d) {}).finish.node? id = some n) :
    ∃ start, (statements.foldl (apply d) {}).graph.node? id = some start ∧
      ∀ {β : Type} {name : String} {read : String → Option β} {part : Node → β},
        Governs name read part → part n =
          ((cascade statements id name).filterMap read).getLast?.getD (part start) := by
  rw [node?_finish] at h
  obtain ⟨start, hstart, rfl⟩ := Option.map_eq_some_iff.1 h
  refine ⟨start, hstart, fun hgoverns => ?_⟩
  rw [hgoverns.layers, cascade_run]

end State

/-- Under every theme each node of a source has the style of the cascade. -/
theorem followsCascade_readWith (t : Theme) (source : String) :
    ∀ n ∈ (readWith t source).graph.nodes.values,
      FollowsCascade t (statementsOf source.toList) n := by
  intro n hn
  obtain ⟨e, he, rfl⟩ := List.mem_map.1 hn
  have hid : e.2.id = e.1 := (grounded_readWith t source).keyed e he
  have hfound : (readWith t source).graph.node? e.2.id = some e.2 :=
    Table.find?_eq_some_iff.2 (hid ▸ he)
  rw [graph_readWith] at hfound
  obtain ⟨start, hstart, hpart⟩ := State.exists_start hfound
  -- before the cascade the node is as its first reference made it
  obtain ⟨subgraph, r, hfresh⟩ := State.fresh_run (statementsOf source.toList) _
    (Table.mem_entries_of_find? hstart)
  obtain rfl : start = freshNode (.ofTheme t) subgraph r := congrArg Prod.snd hfresh
  have hcolour {name : String} {part : Node → Color}
      (h : Governs name (fun v => some (Color.readOrBlack v)) part) : part e.2 =
        ((cascade (statementsOf source.toList) e.2.id name).getLast?.map Color.readOrBlack).getD
          (part (freshNode (.ofTheme t) subgraph r)) := by
    rw [← List.getLast?_map, ← List.filterMap_eq_map]
    exact hpart h
  exact ⟨hcolour governs_fill, hcolour governs_border, hcolour governs_text, hpart governs_width⟩

def lateClass : String := "class A r\nstyle A fill:#0f0,stroke:#00f\nA:::r\nclassDef r fill:#f00"

theorem lateClass_nodes :
    (readWith .standard lateClass).graph.nodes.values.map (fun n => (n.id, n.fill, n.border)) =
      [("A", .rgb 255 0 0, .rgb 0 0 255)] := by
  decide +kernel

theorem lateClass_follows :
    ∃ n ∈ (readWith .standard lateClass).graph.nodes.values,
      n.fill = .rgb 255 0 0 ∧ n.border = .rgb 0 0 255 ∧
      cascade (statementsOf lateClass.toList) n.id "fill" = ["#0f0", "#f00"] ∧
      FollowsCascade .standard (statementsOf lateClass.toList) n := by
  obtain ⟨n, hn, hlook⟩ := List.mem_map.1 (lateClass_nodes ▸ List.mem_singleton_self _)
  simp only [Prod.mk.injEq] at hlook
  obtain ⟨hid, hfill, hborder⟩ := hlook
  have hcascade : cascade (statementsOf lateClass.toList) "A" "fill" = ["#0f0", "#f00"] := by
    decide +kernel
  exact ⟨n, hn, hfill, hborder, hid ▸ hcascade, followsCascade_readWith .standard lateClass n hn⟩

end Source
end Flowchart
