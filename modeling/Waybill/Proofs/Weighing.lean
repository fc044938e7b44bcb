import Waybill.Policy.Basic
import Waybill.Proofs.Representation

/-!
# What an edge weighs

The properties of an edge may advertise a weight (`KeyMap.Advertises`): a text under one key,
trimmed and read, which is not a number where it cannot be read. A policy may propose another number
(`Policy.Proposes`), and the last override of an edge that is declared is one such. What an edge
weighs is what the policy proposes, else what is advertised, else one (`Policy.WeighsAs`). If that
is no weight the edge is refused (`Policy.weigh_eq_error_iff`), else it is the edge that was offered
(`Policy.of_weigh`).
-/

namespace Waybill

/-! ## Advertised weights -/

namespace KeyMap

variable {properties : Properties} {x : Float}

/-- The properties of an edge say what it weighs. A text that cannot be read is not a number. -/
inductive Advertises (properties : Properties) : Float → Prop
  | number {text : String} {x : Float} (hsaid : properties.get? "flow.edge.weight" = some text)
      (hread : Decimal.read? (Text.trim text) = some x) : Advertises properties x
  | noNumber {text : String} (hsaid : properties.get? "flow.edge.weight" = some text)
      (hread : Decimal.read? (Text.trim text) = none) : Advertises properties Decimal.notANumber

/-- **The weight among the properties is what they advertise**, -/
theorem weight?_eq_some_iff : properties.weight? = some x ↔ properties.Advertises x := by
  have hweight : properties.weight? =
      (properties.get? "flow.edge.weight").map fun s => Decimal.read (Text.trim s) := rfl
  rw [hweight, Option.map_eq_some_iff]
  constructor
  · rintro ⟨text, hsaid, rfl⟩
    unfold Decimal.read
    rcases hread : Decimal.read? (Text.trim text) with _ | x
    · exact .noNumber hsaid hread
    · exact .number hsaid hread
  · rintro (⟨hsaid, hread⟩ | ⟨hsaid, hread⟩)
    all_goals exact ⟨_, hsaid, by rw [Decimal.read, hread]; rfl⟩

/-- and there is none if they say nothing of it. -/
theorem weight?_eq_none_iff : properties.weight? = none ↔
    properties.get? "flow.edge.weight" = none :=
  Option.map_eq_none_iff

/-- What an edge with some properties weighs by itself: what they advertise, else one. -/
inductive OwnWeight (properties : Properties) : Float → Prop
  | advertised {x : Float} (hown : properties.Advertises x) : OwnWeight properties x
  | unsaid (hown : properties.get? "flow.edge.weight" = none) : OwnWeight properties 1

/-- **What an edge weighs by itself** is what is read of the property, or one without it.
-/
theorem ownWeight_iff : properties.OwnWeight x ↔ x = properties.weight?.getD 1 := by
  constructor
  · rintro (⟨hown⟩ | ⟨hown⟩)
    · rw [weight?_eq_some_iff.2 hown, Option.getD_some]
    · rw [weight?_eq_none_iff.2 hown, Option.getD_none]
  · rintro rfl
    rcases hown : properties.weight? with _ | x
    · exact .unsaid (weight?_eq_none_iff.1 hown)
    · exact .advertised (weight?_eq_some_iff.1 hown)

/-- What says nothing advertises nothing. -/
theorem not_advertises (h : properties.get? "flow.edge.weight" = none) :
    ¬ properties.Advertises x := by
  rw [← weight?_eq_some_iff, weight?_eq_none_iff.2 h]
  exact nofun

end KeyMap

/-! ## Proposed weights -/

namespace Declarations

variable {d : Declarations} {id : EdgeId} {w : Weight}

/-- Of the overrides of an edge that are declared, the last gives it a weight. -/
def Overrides (d : Declarations) (id : EdgeId) (w : Weight) : Prop :=
  ∃ before o after, d.overrides = before ++ o :: after ∧ o.edge = id ∧ o.weight = w ∧
    ∀ o' ∈ after, o'.edge ≠ id

/-- The override that counts is the last for its edge. -/
theorem override?_eq_some_iff : d.override? id = some w ↔ d.Overrides id w := by
  rw [override?, Option.map_eq_some_iff]
  -- overrides are searched from the end
  simp only [Overrides, List.find?_eq_some_iff_append, List.reverse_eq_append_iff,
    decide_eq_true_iff]
  constructor
  · rintro ⟨o, ⟨hid, before, after, hdeclared, hbefore⟩, rfl⟩
    refine ⟨after.reverse, o, before.reverse, by simpa using hdeclared, hid, rfl, ?_⟩
    simpa using hbefore
  · rintro ⟨before, o, after, hdeclared, hid, rfl, hafter⟩
    refine ⟨o, ⟨hid, after.reverse, before.reverse, by simpa using hdeclared, ?_⟩, rfl⟩
    simpa using hafter

/-- Nothing overrides an edge that no override is declared for. -/
theorem forall_not_overrides_iff :
    (∀ w, ¬ d.Overrides id w) ↔ ∀ o ∈ d.overrides, o.edge ≠ id := by
  simp only [← override?_eq_some_iff, ← ne_eq, ← Option.eq_none_iff_forall_ne_some, override?,
    Option.map_eq_none_iff, List.find?_eq_none, List.mem_reverse, decide_eq_true_iff]

end Declarations

theorem Weight.ofFloat?_value (w : Weight) : ofFloat? w.value = some w := dif_pos w.valid

namespace Edge

theorem weighted_of_weight (w : Weight) (id : EdgeId) (properties : Properties) :
    weighted id properties w.value = .ok ⟨id, properties, w⟩ := by
  rw [weighted, Weight.ofFloat?_value]

/-- A value is refused if it is below zero, infinite or not a number. -/
theorem weighted_eq_error_iff {id : EdgeId} {properties : Properties} {value : Float}
    {r : WeightRefusal} : weighted id properties value = .error r ↔
      ¬ (value.isFinite ∧ ¬ value < 0) ∧ r = ⟨id, value⟩ := by
  rw [← Weight.ofFloat?_eq_none_iff, weighted]
  rcases Weight.ofFloat? value with _ | w <;> simp [eq_comm]

end Edge

namespace Policy

variable {p : Policy} {id : EdgeId} {properties : Properties} {x : Float} {e : Edge}

/-- A policy puts a number in place of what an edge says itself: the last override declared for the
edge, if it keeps to its declarations, and whatever its rules say, if it is of another kind than the
built-in ones. -/
inductive Proposes (p : Policy) (id : EdgeId) (properties : Properties) : Float → Prop
  | declared {w : Weight} (hkind : p.kind = .declared) (hlast : p.declarations.Overrides id w) :
      p.Proposes id properties w.value
  | other {x : Proposal} (hdeclared : p.kind ≠ .declared) (hopen : p.kind ≠ .unrestricted)
      (hsaid : (p.kind.rules p.declarations).weightOf? id properties = some x) :
      p.Proposes id properties x.value

theorem declared_ne_unrestricted : PolicyKind.declared ≠ PolicyKind.unrestricted := fun h => by
  have hname : (PolicyKind.declared.rules .empty).name = (PolicyKind.unrestricted.rules .empty).name :=
    by rw [h]
  exact absurd hname (by decide)

theorem weightOf?_of_declared (hkind : p.kind = .declared) (id : EdgeId)
    (properties : Properties) :
    p.weightOf? id properties = (p.declarations.override? id).map fun w => ⟨w.value⟩ := by
  rw [weightOf?, rules, hkind]
  rfl

theorem weightOf?_of_unrestricted (hkind : p.kind = .unrestricted) (id : EdgeId)
    (properties : Properties) : p.weightOf? id properties = none := by
  rw [weightOf?, rules, hkind]
  rfl

/-- A policy has a say in a weight where it proposes one. -/
theorem weightOf?_eq_some_iff :
    p.weightOf? id properties = some ⟨x⟩ ↔ p.Proposes id properties x := by
  constructor
  · intro h
    by_cases hdeclared : p.kind = .declared
    · rw [weightOf?_of_declared hdeclared] at h
      obtain ⟨w, hw, heq⟩ := Option.map_eq_some_iff.1 h
      cases heq
      exact .declared hdeclared (Declarations.override?_eq_some_iff.1 hw)
    by_cases hopen : p.kind = .unrestricted
    · rw [weightOf?_of_unrestricted hopen] at h
      cases h
    · exact .other hdeclared hopen h
  · rintro (⟨hkind, hlast⟩ | ⟨-, -, hsaid⟩)
    · rw [weightOf?_of_declared hkind, Declarations.override?_eq_some_iff.2 hlast]
      rfl
    · exact hsaid

theorem weightOf?_eq_none_iff :
    p.weightOf? id properties = none ↔ ∀ x, ¬ p.Proposes id properties x := by
  simp only [← weightOf?_eq_some_iff, Option.eq_none_iff_forall_ne_some]
  exact ⟨fun h x => h ⟨x⟩, fun h x => h x.value⟩

/-- A built-in policy proposes nothing for an edge if no override of it is declared, or if it does
not keep to its declarations. -/
theorem forall_not_proposes_iff (hkind : p.kind = .declared ∨ p.kind = .unrestricted) :
    (∀ x, ¬ p.Proposes id properties x) ↔
      (p.kind = .declared → ∀ o ∈ p.declarations.overrides, o.edge ≠ id) := by
  rw [← weightOf?_eq_none_iff]
  rcases hkind with hkind | hkind
  · rw [weightOf?_of_declared hkind, Option.map_eq_none_iff, imp_iff_right hkind,
      ← Declarations.forall_not_overrides_iff]
    simp only [← Declarations.override?_eq_some_iff, Option.eq_none_iff_forall_ne_some, ne_eq]
  · rw [weightOf?_of_unrestricted hkind]
    refine iff_of_true rfl fun hdeclared => absurd (hdeclared.symm.trans hkind) ?_
    exact declared_ne_unrestricted

/-! ## Weights -/

/-- What an edge with some properties is to weigh: what the policy proposes, else what it weighs by
itself. -/
inductive WeighsAs (p : Policy) (id : EdgeId) (properties : Properties) : Float → Prop
  | proposed {x : Float} (hsaid : p.Proposes id properties x) : p.WeighsAs id properties x
  | own {x : Float} (hunsaid : ∀ x', ¬ p.Proposes id properties x')
      (hown : properties.OwnWeight x) : p.WeighsAs id properties x

/-- **The number that is tried** for an edge is what it is to weigh. -/
theorem exists_weigh_eq_weighted (p : Policy) (id : EdgeId) (properties : Properties) :
    ∃ x, p.weigh id properties = Edge.weighted id properties x ∧
      ∀ x', p.WeighsAs id properties x' ↔ x' = x := by
  unfold weigh
  rcases hsaid : p.weightOf? id properties with _ | ⟨⟨x⟩⟩
  · have hunsaid := weightOf?_eq_none_iff.1 hsaid
    refine ⟨properties.weight?.getD Weight.one.value, rfl, fun x' => ⟨?_, fun h => ?_⟩⟩
    · rintro (⟨hproposed⟩ | ⟨-, hown⟩)
      · exact absurd hproposed (hunsaid x')
      · exact KeyMap.ownWeight_iff.1 hown
    · exact .own hunsaid (KeyMap.ownWeight_iff.2 h)
  · have hproposed := weightOf?_eq_some_iff.1 hsaid
    refine ⟨x, rfl, fun x' => ⟨?_, fun h => h ▸ .proposed hproposed⟩⟩
    rintro (⟨hproposed'⟩ | ⟨hunsaid, -⟩)
    · have hsame := weightOf?_eq_some_iff.2 hproposed'
      rw [hsaid] at hsame
      cases hsame
      rfl
    · exact absurd hproposed (hunsaid x)

/-- A policy refuses an offer: what the edge is to weigh is no weight. -/
def Refuses (p : Policy) (x : Engine × Offer) (value : Float) : Prop :=
  p.WeighsAs (x.2.edgeId x.1) x.2.properties value ∧ ¬ (value.isFinite ∧ ¬ value < 0)

/-- **If what a policy proposes for an offer is a weight**, the policy refuses it just if it
proposes nothing and what the offer advertises is no weight. -/
theorem refuses_iff_of_valid {x : Engine × Offer}
    (hvalid : ∀ y, p.Proposes (x.2.edgeId x.1) x.2.properties y → y.isFinite ∧ ¬ y < 0)
    {value : Float} : p.Refuses x value ↔
      (∀ y, ¬ p.Proposes (x.2.edgeId x.1) x.2.properties y) ∧
        x.2.properties.Advertises value ∧ ¬ (value.isFinite ∧ ¬ value < 0) := by
  constructor
  · rintro ⟨⟨hsaid⟩ | ⟨hunsaid, ⟨hown⟩ | ⟨-⟩⟩, hinvalid⟩
    · exact absurd (hvalid value hsaid) hinvalid
    · exact ⟨hunsaid, hown, hinvalid⟩
    · exact absurd Weight.one.valid hinvalid
  · rintro ⟨hunsaid, hown, hinvalid⟩
    exact ⟨.own hunsaid (.advertised hown), hinvalid⟩

/-- What a built-in policy proposes is a weight. -/
theorem Proposes.valid (h : p.Proposes id properties x)
    (hkind : p.kind = .declared ∨ p.kind = .unrestricted) : x.isFinite ∧ ¬ x < 0 := by
  cases h with
  | @declared w => exact w.valid
  | other hdeclared hopen => exact (hkind.elim hdeclared hopen).elim

/-- A built-in policy refuses an offer just if it has no override for it and what the offer
advertises is no weight. -/
theorem refuses_iff (hkind : p.kind = .declared ∨ p.kind = .unrestricted) {x : Engine × Offer}
    {value : Float} : p.Refuses x value ↔
      (p.kind = .declared → ∀ o ∈ p.declarations.overrides, o.edge ≠ x.2.edgeId x.1) ∧
        x.2.properties.Advertises value ∧ ¬ (value.isFinite ∧ ¬ value < 0) := by
  rw [refuses_iff_of_valid fun y hy => hy.valid hkind, forall_not_proposes_iff hkind]

/-- What does not say what it weighs is not refused by a built-in policy. -/
theorem not_refuses_of_unweighed (hkind : p.kind = .declared ∨ p.kind = .unrestricted)
    {x : Engine × Offer} (h : x.2.properties.get? "flow.edge.weight" = none) (value : Float) :
    ¬ p.Refuses x value := by
  rw [refuses_iff hkind]
  exact fun ⟨_, hown, _⟩ => KeyMap.not_advertises h hown

/-- An edge that is weighed is the edge that was offered, at what it is to weigh. -/
theorem of_weigh (h : p.weigh id properties = .ok e) :
    e.id = id ∧ e.properties = properties ∧ p.WeighsAs id properties e.weight.value := by
  obtain ⟨x, hweigh, hx⟩ := p.exists_weigh_eq_weighted id properties
  obtain ⟨hid, hproperties, hvalue⟩ := Edge.of_weighted (hweigh.symm.trans h)
  exact ⟨hid, hproperties, (hx _).2 hvalue⟩

/-- **An edge is not weighed just if its offer is refused.** -/
theorem weigh_eq_error_iff {x : Engine × Offer} {r : WeightRefusal} :
    p.weigh (x.2.edgeId x.1) x.2.properties = .error r ↔
      ∃ value, p.Refuses x value ∧ r = ⟨x.2.edgeId x.1, value⟩ := by
  obtain ⟨value, hweigh, hvalue⟩ := p.exists_weigh_eq_weighted (x.2.edgeId x.1) x.2.properties
  rw [hweigh, Edge.weighted_eq_error_iff]
  unfold Refuses
  simp only [hvalue]
  constructor
  · rintro ⟨hinvalid, rfl⟩
    exact ⟨value, ⟨rfl, hinvalid⟩, rfl⟩
  · rintro ⟨_, ⟨rfl, hinvalid⟩, rfl⟩
    exact ⟨hinvalid, rfl⟩

end Policy

end Waybill
