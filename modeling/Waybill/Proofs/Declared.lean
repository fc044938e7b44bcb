import Waybill.Proofs.Connections
import Waybill.Proofs.Stages

/-!
# What settings declare

The settings of a policy are read list by list. They declare what their entries do, in the order
of the entries (`Declarations.ofConfig_eq_ok_iff`), and if they declare nothing, the first entry
that is malformed is told, connections before nodes before overrides
(`Declarations.ofConfig_eq_error_iff`). An entry may be padded with blanks but for the comma that
ends it, so lists that are joined of entries declare what the entries do
(`Declarations.ofConfig_of_join`).
-/

namespace Waybill

open Text

/-! ## The entries of a policy -/

namespace Declarations

variable {s : String} {e : PolicyError} {config : Properties} {d : Declarations}

theorem readConnection_eq (s : String) :
    readConnection s = (EdgeId.parse s).mapError (.badConnection s) := by
  unfold readConnection
  rcases EdgeId.parse s with fault | id <;> rfl

theorem readOverride_eq (s : String) :
    readOverride s = (Override.parse s).mapError (.badOverride s) := by
  unfold readOverride
  rcases Override.parse s with fault | o <;> rfl

theorem readConnection_eq_ok_iff {id : EdgeId} :
    readConnection s = .ok id ↔ EdgeId.parse s = .ok id := by
  rw [readConnection_eq, mapError_eq_ok_iff]

theorem readConnection_eq_error_iff : readConnection s = .error e ↔
    ∃ fault, EdgeId.parse s = .error fault ∧ e = .badConnection s fault := by
  rw [readConnection_eq, mapError_eq_error_iff]

theorem readOverride_eq_ok_iff {o : Override} :
    readOverride s = .ok o ↔ Override.parse s = .ok o := by
  rw [readOverride_eq, mapError_eq_ok_iff]

theorem readOverride_eq_error_iff : readOverride s = .error e ↔
    ∃ fault, Override.parse s = .error fault ∧ e = .badOverride s fault := by
  rw [readOverride_eq, mapError_eq_error_iff]

/-- A node is any text without a colon, as it stands. -/
theorem readNode_eq_ok_iff {node : String} :
    readNode s = .ok node ↔ ':' ∉ s.toList ∧ s = node := by
  unfold readNode
  rw [← List.contains_iff_mem]
  split
  · next h => exact iff_of_false nofun fun hnot => hnot.1 h
  · next h => exact ⟨fun heq => ⟨h, Except.ok.inj heq⟩, fun heq => congrArg _ heq.2⟩

/-- A text with a colon is refused for it. -/
theorem readNode_eq_error_iff : readNode s = .error e ↔ ':' ∈ s.toList ∧ e = .badNode s := by
  unfold readNode
  rw [← List.contains_iff_mem]
  split
  · next h => exact ⟨fun heq => ⟨h, (Except.error.inj heq).symm⟩, fun heq => congrArg _ heq.2.symm⟩
  · next h => exact iff_of_false nofun fun hcolon => h hcolon.1

/-- An entry that is a connection. -/
def IsConnection (s : String) : Prop := ∃ id, EdgeId.parse s = .ok id

/-- An entry that is a node. -/
def IsNode (s : String) : Prop := ':' ∉ s.toList

instance (s : String) : Decidable (IsNode s) := inferInstanceAs (Decidable (':' ∉ s.toList))

/-- An entry that is an override. -/
def IsOverride (s : String) : Prop := ∃ o, Override.parse s = .ok o

/-! ## All lists -/

/-- Nodes are declared as they are written. -/
theorem mapM_readNode_eq_ok_iff {l nodes : List String} :
    l.mapM readNode = .ok nodes ↔ (∀ s ∈ l, IsNode s) ∧ l = nodes := by
  rw [mapM_eq_ok_iff]
  simp only [readNode_eq_ok_iff]
  constructor
  · intro h
    induction h with
    | nil => exact ⟨nofun, rfl⟩
    | cons hfirst _ ih =>
      obtain ⟨hcolon, rfl⟩ := hfirst
      obtain ⟨hrest, rfl⟩ := ih
      exact ⟨List.forall_mem_cons.2 ⟨hcolon, hrest⟩, rfl⟩
  · rintro ⟨h, rfl⟩
    exact List.forall₂_same.2 fun s hs => ⟨h s hs, rfl⟩

/-- **Settings declare what their entries do**, in their order. -/
theorem ofConfig_eq_ok_iff : ofConfig config = .ok d ↔
    List.Forall₂ (fun s id => EdgeId.parse s = .ok id)
      (config.items Setting.blockedConnections) d.blockedConnections ∧
    ((∀ s ∈ config.items Setting.blockedNodes, IsNode s) ∧
      config.items Setting.blockedNodes = d.blockedNodes) ∧
    List.Forall₂ (fun s o => Override.parse s = .ok o)
      (config.items Setting.edgeWeights) d.overrides ∧
    config.nonBlank? Setting.policyPath = d.path? := by
  unfold ofConfig
  rw [bind_eq_ok_iff]
  constructor
  · rintro ⟨connections, hconnections, h⟩
    obtain ⟨nodes, hread, h⟩ := bind_eq_ok_iff.1 h
    obtain ⟨overrides, hoverrides, h⟩ := bind_eq_ok_iff.1 h
    cases h
    refine ⟨?_, mapM_readNode_eq_ok_iff.1 hread, ?_, rfl⟩
    · exact (mapM_eq_ok_iff.1 hconnections).imp fun _ _ => readConnection_eq_ok_iff.1
    · exact (mapM_eq_ok_iff.1 hoverrides).imp fun _ _ => readOverride_eq_ok_iff.1
  · rintro ⟨hconnections, hread, hoverrides, hpath⟩
    refine ⟨d.blockedConnections, mapM_eq_ok_iff.2 ?_, bind_eq_ok_iff.2 ⟨d.blockedNodes,
      mapM_readNode_eq_ok_iff.2 hread, bind_eq_ok_iff.2 ⟨d.overrides, mapM_eq_ok_iff.2 ?_, ?_⟩⟩⟩
    · exact hconnections.imp fun _ _ => readConnection_eq_ok_iff.2
    · exact hoverrides.imp fun _ _ => readOverride_eq_ok_iff.2
    · rw [hpath]
      rfl

/-- The first entry of some settings that is malformed, and how that is told. -/
inductive FirstMalformed (config : Properties) : PolicyError → Prop
  | connection {before after : List String} {s : String} {fault : ConnectionFault}
      (hlist : config.items Setting.blockedConnections = before ++ s :: after)
      (hbefore : ∀ b ∈ before, IsConnection b) (hbad : EdgeId.parse s = .error fault) :
      FirstMalformed config (.badConnection s fault)
  | node {before after : List String} {s : String}
      (hconnections : ∀ c ∈ config.items Setting.blockedConnections, IsConnection c)
      (hlist : config.items Setting.blockedNodes = before ++ s :: after)
      (hbefore : ∀ b ∈ before, IsNode b) (hbad : ':' ∈ s.toList) :
      FirstMalformed config (.badNode s)
  | override {before after : List String} {s : String} {fault : OverrideFault}
      (hconnections : ∀ c ∈ config.items Setting.blockedConnections, IsConnection c)
      (hnodes : ∀ n ∈ config.items Setting.blockedNodes, IsNode n)
      (hlist : config.items Setting.edgeWeights = before ++ s :: after)
      (hbefore : ∀ b ∈ before, IsOverride b) (hbad : Override.parse s = .error fault) :
      FirstMalformed config (.badOverride s fault)

theorem exists_readConnection_iff : (∃ id, readConnection s = .ok id) ↔ IsConnection s := by
  simp only [readConnection_eq_ok_iff, IsConnection]

theorem exists_readNode_iff : (∃ node, readNode s = .ok node) ↔ IsNode s := by
  simp only [readNode_eq_ok_iff, IsNode, exists_and_left, exists_eq', and_true]

theorem exists_readOverride_iff : (∃ o, readOverride s = .ok o) ↔ IsOverride s := by
  simp only [readOverride_eq_ok_iff, IsOverride]

/-- **Settings that declare nothing fail with the first entry that is malformed.** -/
theorem ofConfig_eq_error_iff : ofConfig config = .error e ↔ FirstMalformed config e := by
  unfold ofConfig
  rw [bind_eq_error_iff]
  constructor
  · rintro (h | ⟨connections, hconnections, h⟩)
    · obtain ⟨before, s, after, hlist, hbefore, hbad⟩ := mapM_eq_error_iff.1 h
      obtain ⟨fault, hfault, rfl⟩ := readConnection_eq_error_iff.1 hbad
      exact .connection hlist (fun b hb => exists_readConnection_iff.1 (hbefore b hb)) hfault
    have hall := exists_mapM_eq_ok_iff.1 ⟨connections, hconnections⟩
    simp only [exists_readConnection_iff] at hall
    rcases bind_eq_error_iff.1 h with h | ⟨nodes, hnodes, h⟩
    · obtain ⟨before, s, after, hlist, hbefore, hbad⟩ := mapM_eq_error_iff.1 h
      obtain ⟨hcolon, rfl⟩ := readNode_eq_error_iff.1 hbad
      exact .node hall hlist (fun b hb => exists_readNode_iff.1 (hbefore b hb)) hcolon
    have hall' := exists_mapM_eq_ok_iff.1 ⟨nodes, hnodes⟩
    simp only [exists_readNode_iff] at hall'
    rcases bind_eq_error_iff.1 h with h | ⟨overrides, -, h⟩
    · obtain ⟨before, s, after, hlist, hbefore, hbad⟩ := mapM_eq_error_iff.1 h
      obtain ⟨fault, hfault, rfl⟩ := readOverride_eq_error_iff.1 hbad
      exact .override hall hall' hlist
        (fun b hb => exists_readOverride_iff.1 (hbefore b hb)) hfault
    · cases h
  · intro h
    -- A list is looked at once the lists before it are read.
    have hread : (∀ c ∈ config.items Setting.blockedConnections, IsConnection c) →
        ∃ ids, (config.items Setting.blockedConnections).mapM readConnection = .ok ids :=
      fun hall => exists_mapM_eq_ok_iff.2 fun c hc => exists_readConnection_iff.2 (hall c hc)
    cases h with
    | connection hlist hbefore hbad =>
      refine .inl (mapM_eq_error_iff.2 ⟨_, _, _, hlist, fun b hb => ?_, ?_⟩)
      · exact exists_readConnection_iff.2 (hbefore b hb)
      · exact readConnection_eq_error_iff.2 ⟨_, hbad, rfl⟩
    | node hconnections hlist hbefore hbad =>
      obtain ⟨ids, hids⟩ := hread hconnections
      refine .inr ⟨ids, hids, bind_eq_error_iff.2 (.inl (mapM_eq_error_iff.2
        ⟨_, _, _, hlist, fun b hb => ?_, ?_⟩))⟩
      · exact exists_readNode_iff.2 (hbefore b hb)
      · exact readNode_eq_error_iff.2 ⟨hbad, rfl⟩
    | override hconnections hnodes hlist hbefore hbad =>
      obtain ⟨ids, hids⟩ := hread hconnections
      obtain ⟨nodes, hread'⟩ := exists_mapM_eq_ok_iff.2 fun n hn =>
        exists_readNode_iff.2 (hnodes n hn)
      refine .inr ⟨ids, hids, bind_eq_error_iff.2 (.inr ⟨nodes, hread', bind_eq_error_iff.2
        (.inl (mapM_eq_error_iff.2 ⟨_, _, _, hlist, fun b hb => ?_, ?_⟩))⟩)⟩
      · exact exists_readOverride_iff.2 (hbefore b hb)
      · exact readOverride_eq_error_iff.2 ⟨_, hbad, rfl⟩

/-! ## Joined lists -/

theorem items_eq (config : Properties) (key : String) :
    config.items key = CommaList.items ((config.get? key).getD "") := by
  unfold KeyMap.items
  rcases config.get? key with _ | value <;> rfl

/-- Where the entries of a list are not blank, the items of the list are the entries, trimmed. -/
theorem items_of_join {key : String} {entries : List String}
    (hjoin : (config.get? key).getD "" = CommaList.join entries)
    (hcomma : ∀ s ∈ entries, ',' ∉ s.toList) (hblank : ∀ s ∈ entries, trim s ≠ "") :
    config.items key = entries.map trim := by
  rw [items_eq, hjoin, CommaList.items_join hcomma, List.filter_eq_self]
  intro item hitem
  obtain ⟨s, hs, rfl⟩ := List.mem_map.1 hitem
  exact decide_eq_true (hblank s hs)

/-- **Lists that are joined of entries declare what the entries do.** -/
theorem ofConfig_of_join {connections nodes overrides : List String} {ids : List EdgeId}
    {os : List Override}
    (hcomma : ∀ s ∈ connections ++ nodes ++ overrides, ',' ∉ s.toList)
    (hconnections : List.Forall₂ (fun s id => EdgeId.parse s = .ok id) connections ids)
    (hnodes : ∀ s ∈ nodes, trim s ≠ "" ∧ IsNode s)
    (hoverrides : List.Forall₂ (fun s o => Override.parse s = .ok o) overrides os)
    (hjoin : (config.get? Setting.blockedConnections).getD "" = CommaList.join connections)
    (hjoin' : (config.get? Setting.blockedNodes).getD "" = CommaList.join nodes)
    (hjoin'' : (config.get? Setting.edgeWeights).getD "" = CommaList.join overrides) :
    ofConfig config =
      .ok ⟨ids, nodes.map trim, os, config.nonBlank? Setting.policyPath⟩ := by
  simp only [List.forall_mem_append] at hcomma
  obtain ⟨⟨hcomma₁, hcomma₂⟩, hcomma₃⟩ := hcomma
  -- A connection holds a colon and an override an equals sign, so neither is blank.
  have hblank₁ : ∀ s ∈ connections, trim s ≠ "" := by
    intro s hs
    obtain ⟨id, hid⟩ := exists_mapM_eq_ok_iff.1 ⟨ids, mapM_eq_ok_iff.2 hconnections⟩ s hs
    exact trim_ne_empty (EdgeId.colon_mem_of_parse hid) (by decide)
  have hblank₃ : ∀ s ∈ overrides, trim s ≠ "" := by
    intro s hs
    obtain ⟨o, ho⟩ := exists_mapM_eq_ok_iff.1 ⟨os, mapM_eq_ok_iff.2 hoverrides⟩ s hs
    exact trim_ne_empty (Override.equals_mem_of_parse ho) (by decide)
  have hitems₂ := items_of_join hjoin' hcomma₂ fun s hs => (hnodes s hs).1
  refine ofConfig_eq_ok_iff.2 ⟨?_, ⟨?_, hitems₂⟩, ?_, rfl⟩
  · rw [items_of_join hjoin hcomma₁ hblank₁, List.forall₂_map_left_iff]
    exact hconnections.imp fun s id hid => (EdgeId.parse_trim s).trans hid
  · rw [hitems₂, List.forall_mem_map]
    exact fun s hs hmem => (hnodes s hs).2 (mem_of_mem_trim hmem)
  · rw [items_of_join hjoin'' hcomma₃ hblank₃, List.forall₂_map_left_iff]
    exact hoverrides.imp fun s o ho => (Override.parse_trim s).trans ho

/-- Settings declare nothing just if an entry is malformed. -/
theorem exists_ofConfig_eq_error_iff : (∃ e, ofConfig config = .error e) ↔
    (∃ s ∈ config.items Setting.blockedConnections, ¬ IsConnection s) ∨
    (∃ s ∈ config.items Setting.blockedNodes, ¬ IsNode s) ∨
    ∃ s ∈ config.items Setting.edgeWeights, ¬ IsOverride s := by
  constructor
  · rintro ⟨e, he⟩
    rcases ofConfig_eq_error_iff.1 he with
      @⟨before, after, s, fault, hlist, hbefore, hbad⟩ |
      @⟨before, after, s, hconnections, hlist, hbefore, hbad⟩ |
      @⟨before, after, s, fault, hconnections, hnodes, hlist, hbefore, hbad⟩
    all_goals have hmem : s ∈ before ++ s :: after := List.mem_append_right _ List.mem_cons_self
    · refine .inl ⟨s, hlist ▸ hmem, fun ⟨id, hid⟩ => ?_⟩
      rw [hbad] at hid
      cases hid
    · exact .inr (.inl ⟨s, hlist ▸ hmem, not_not.2 hbad⟩)
    · refine .inr (.inr ⟨s, hlist ▸ hmem, fun ⟨o, ho⟩ => ?_⟩)
      rw [hbad] at ho
      cases ho
  · intro h
    rcases hread : ofConfig config with e | d
    · exact ⟨e, rfl⟩
    · obtain ⟨hconnections, ⟨hnodes, -⟩, hoverrides, -⟩ := ofConfig_eq_ok_iff.1 hread
      rcases h with ⟨s, hs, hbad⟩ | ⟨s, hs, hbad⟩ | ⟨s, hs, hbad⟩
      · exact absurd (exists_mapM_eq_ok_iff.1 ⟨_, mapM_eq_ok_iff.2 hconnections⟩ s hs) hbad
      · exact absurd (hnodes s hs) hbad
      · exact absurd (exists_mapM_eq_ok_iff.1 ⟨_, mapM_eq_ok_iff.2 hoverrides⟩ s hs) hbad

/-- **What settings declare is what is written in them.** A connection that is read is written
as a text that reads as the same, and so is every edge whose names may stand there. A connection
and a number, with an equals sign between them, are an override. Lists that are joined of
entries without commas declare what the entries do, no more and no less and in their order. And
whatever the settings are, they declare nothing just if an entry is malformed, and fail with the
first that is. -/
theorem ofConfig_exact :
    (∀ (s : String) (id : EdgeId), EdgeId.parse s = .ok id → id.engine.uri.Rereads →
      EdgeId.parse id.write = .ok id) ∧
    (∀ id : EdgeId, EdgeId.Speakable id.source → EdgeId.Speakable id.target →
      id.engine.uri.Rereads → EdgeId.parse id.write = .ok id) ∧
    (∀ (connection weight : String) (id : EdgeId) (x : Float) (w : Weight),
      EdgeId.parse connection = .ok id → Decimal.read? (trim weight) = some x →
      Weight.ofFloat? x = some w →
        Override.parse (connection ++ "=" ++ weight) = .ok ⟨id, w⟩) ∧
    (∀ (config : Properties) (connections nodes overrides : List String) (ids : List EdgeId)
      (os : List Override),
      (∀ s ∈ connections ++ nodes ++ overrides, ',' ∉ s.toList) →
      List.Forall₂ (fun s id => EdgeId.parse s = .ok id) connections ids →
      (∀ s ∈ nodes, trim s ≠ "" ∧ IsNode s) →
      List.Forall₂ (fun s o => Override.parse s = .ok o) overrides os →
      (config.get? Setting.blockedConnections).getD "" = CommaList.join connections →
      (config.get? Setting.blockedNodes).getD "" = CommaList.join nodes →
      (config.get? Setting.edgeWeights).getD "" = CommaList.join overrides →
        ofConfig config = .ok ⟨ids, nodes.map trim, os, config.nonBlank? Setting.policyPath⟩) ∧
    ∀ config : Properties,
      ((∃ e, ofConfig config = .error e) ↔
        (∃ s ∈ config.items Setting.blockedConnections, ¬ IsConnection s) ∨
        (∃ s ∈ config.items Setting.blockedNodes, ¬ IsNode s) ∨
        ∃ s ∈ config.items Setting.edgeWeights, ¬ IsOverride s) ∧
      ∀ e, ofConfig config = .error e ↔ FirstMalformed config e := by
  refine ⟨fun s id h hengine => ?_, fun id hsource htarget hengine => ?_,
    fun connection weight id x w hconnection hread hweight => ?_,
    fun config connections nodes overrides ids os hcomma hconnections hnodes hoverrides
      hjoin hjoin' hjoin'' => ?_,
    fun config => ⟨exists_ofConfig_eq_error_iff, fun e => ofConfig_eq_error_iff⟩⟩
  · obtain ⟨hsource, htarget⟩ := EdgeId.speakable_of_parse h
    exact EdgeId.parse_write hsource htarget hengine
  · exact EdgeId.parse_write hsource htarget hengine
  · exact Override.parse_append hconnection hread hweight
  · exact ofConfig_of_join hcomma hconnections hnodes hoverrides hjoin hjoin' hjoin''

/-! ## An engine with separators in its address -/

/-- A hop whose engine has colons and an equals sign in its address. -/
def porter : EdgeId :=
  ⟨"a", "b", ⟨⟨"x", "", "", some "h", some 1, .rooted ["p=q"], none, none⟩⟩⟩

/-- Settings that block the hop and a node and yet say what the hop weighs; with more nodes to
be blocked behind it. -/
def tolled (more : List String) : Properties :=
  .ofList [(Setting.blockedConnections, CommaList.join [" a : b:x://h:1/p=q "]),
    (Setting.blockedNodes, CommaList.join ("e " :: more)),
    (Setting.edgeWeights, CommaList.join [" a : b:x://h:1/p=q = 2.5"])]

/-- The hop is read back however it is padded; and what is no name of a node is told before the
override that follows it. -/
theorem ofConfig_exact_tolled :
    EdgeId.parse " a : b:x://h:1/p=q " = .ok porter ∧ porter.engine.uri.Rereads ∧
    EdgeId.parse porter.write = .ok porter ∧
    EdgeId.parse "b:a:x://h:1/p=q" = .ok ⟨porter.target, porter.source, porter.engine⟩ ∧
    Override.parse (" a : b:x://h:1/p=q " ++ "=" ++ " 2.5") = .ok ⟨porter, ⟨2.5, by decide⟩⟩ ∧
    ofConfig (tolled []) = .ok ⟨[porter], ["e"], [⟨porter, ⟨2.5, by decide⟩⟩], none⟩ ∧
    ofConfig (tolled ["f:g", "h:i"]) = .error (.badNode "f:g") := by
  obtain ⟨hback, hwritten, hoverride, hjoined, hany⟩ := ofConfig_exact
  have hread : EdgeId.parse " a : b:x://h:1/p=q " = .ok porter := rfl
  have hrereads : porter.engine.uri.Rereads := rfl
  have hsource : EdgeId.Speakable porter.source := ⟨by decide, by decide, by decide⟩
  have htarget : EdgeId.Speakable porter.target := ⟨by decide, by decide, by decide⟩
  have hweighed : Override.parse (" a : b:x://h:1/p=q " ++ "=" ++ " 2.5") =
      .ok ⟨porter, ⟨2.5, by decide⟩⟩ := hoverride _ _ _ _ _ hread rfl rfl
  refine ⟨hread, hrereads, hback _ _ hread hrereads,
    hwritten ⟨porter.target, porter.source, porter.engine⟩ htarget hsource hrereads, hweighed,
    ?_, ?_⟩
  · have hnode : ∀ s ∈ ["e "], trim s ≠ "" ∧ IsNode s := by decide
    exact hjoined (tolled []) [" a : b:x://h:1/p=q "] ["e "] [" a : b:x://h:1/p=q = 2.5"] _ _
      (by decide) (.cons hread .nil) hnode (.cons hweighed .nil) rfl rfl rfl
  · obtain ⟨-, hfirst⟩ := hany (tolled ["f:g", "h:i"])
    have hconnections : ∀ c ∈ (tolled ["f:g", "h:i"]).items Setting.blockedConnections,
        IsConnection c := List.forall_mem_singleton.2 ⟨porter, rfl⟩
    have hbefore : ∀ b ∈ ["e"], IsNode b := by decide
    have hlist : (tolled ["f:g", "h:i"]).items Setting.blockedNodes = ["e"] ++ "f:g" :: ["h:i"] :=
      rfl
    exact (hfirst _).2 (.node hconnections hlist hbefore (by decide))

end Declarations

end Waybill
