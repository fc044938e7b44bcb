import Mathlib.Data.Set.Card
import Waybill.Proofs.ByteOrder
import Waybill.Setting

/-!
# Settings laid over one another

Settings are made key by key and by laying some over others, in whatever order (`Making`). What a
key is given on the way is a partial function, and the settings agree with it (`Agrees`): they are
listed in the order of their keys, each of its keys once. A map has one form only, so what is true
of look-ups is true of the maps. To lay over is associative, to do it twice is to do it once, and
it makes no difference which of two stands above just if they say the same wherever both say
something (`KeyMap.atop_comm_iff`).
-/

namespace Waybill

/-! ## Maps laid over one another -/

namespace KeyMap

variable {α : Type}

/-- Overlays may be put together in any grouping. -/
theorem atop_assoc (a b c : KeyMap α) : a.atop (b.atop c) = (a.atop b).atop c :=
  ext_get? fun k => by rw [get?_atop, get?_atop, get?_atop, get?_atop, Option.or_assoc]

theorem atop_self (a : KeyMap α) : a.atop a = a :=
  ext_get? fun k => by rw [get?_atop, Option.or_self]

theorem empty_atop (a : KeyMap α) : empty.atop a = a :=
  ext_get? fun k => by rw [get?_atop, get?_empty, Option.none_or]

theorem atop_empty (a : KeyMap α) : a.atop empty = a :=
  ext_get? fun k => by rw [get?_atop, get?_empty, Option.or_none]

/-- **Which map stands above makes no difference** just if the two agree on every key of both. -/
theorem atop_comm_iff {a b : KeyMap α} : a.atop b = b.atop a ↔
    ∀ k v w, a.get? k = some v → b.get? k = some w → v = w := by
  constructor
  · intro h k v w hv hw
    have hk := congrArg (get? · k) h
    simp only [get?_atop, hv, hw, Option.some_or] at hk
    exact Option.some.inj hk
  · intro h
    refine ext_get? fun k => ?_
    rw [get?_atop, get?_atop]
    rcases hv : a.get? k with _ | v
    · rw [Option.none_or, Option.or_none]
    · rcases hw : b.get? k with _ | w
      · rw [Option.or_none, Option.none_or]
      · rw [Option.some_or, Option.some_or, h k v w hv hw]

end KeyMap

/-! ## What settings say -/

namespace Properties

/-- Settings are a partial function, listed in the order of the bytes of its keys. -/
structure Agrees (p : Properties) (f : String → Option String) : Prop where
  ordered : p.entries.Pairwise fun d e => Text.bytes d.1 < Text.bytes e.1
  get : ∀ k, p.get? k = f k
  listed : ∀ k v, (k, v) ∈ p.entries ↔ f k = some v
  contains : ∀ k, p.contains k ↔ f k ≠ none
  finite : {k | f k ≠ none}.Finite
  size : p.size = {k | f k ≠ none}.ncard

theorem mem_entries_iff {p : Properties} {k v : String} :
    (k, v) ∈ p.entries ↔ p.get? k = some v :=
  ⟨fun h => KeyMap.findEntry_of_mem p.ascending h, KeyMap.mem_of_findEntry⟩

/-- The keys of settings, each listed once, are those with a value. -/
theorem coe_keys (p : Properties) : (p.keys.toFinset : Set String) = {k | p.get? k ≠ none} := by
  ext k
  rw [Finset.mem_coe, List.mem_toFinset, Set.mem_ofPred_eq, ne_eq, ← KeyMap.not_mem_keys_iff,
    not_not]

theorem nodup_keys (p : Properties) : p.keys.Nodup :=
  p.pairwise_keys.imp ne_of_lt

/-- All else follows from the look-ups. -/
theorem agrees_of_get? {p : Properties} {f : String → Option String} (h : ∀ k, p.get? k = f k) :
    p.Agrees f := by
  obtain rfl : p.get? = f := funext h
  constructor
  case ordered => exact p.ascending.imp Text.bytes_lt_of_lt
  case get => exact fun _ => rfl
  case listed => exact fun _ _ => mem_entries_iff
  case contains => exact fun k => Option.isSome_iff_ne_none
  case finite => exact p.coe_keys ▸ p.keys.toFinset.finite_toSet
  case size =>
    calc p.size = p.keys.length := (List.length_map _).symm
      _ = p.keys.toFinset.card := (List.toFinset_card_of_nodup p.nodup_keys).symm
      _ = {k | p.get? k ≠ none}.ncard := by rw [← coe_keys, Set.ncard_coe_finset]

end Properties

/-! ## How settings are made -/

/-- Settings made from none, key by key, and by laying some over others. -/
inductive Making where
  | nothing
  | set (m : Making) (key value : String)
  | laid (upper lower : Making)

namespace Making

/-- The settings that are made. -/
def settings : Making → Properties
  | nothing => .empty
  | set m key value => m.settings.insert key value
  | laid upper lower => upper.settings.atop lower.settings

/-- What a key is given on the way. -/
def given : Making → String → Option String
  | nothing => fun _ => none
  | set m key value => Function.update m.given key (some value)
  | laid upper lower => fun k => (upper.given k).or (lower.given k)

/-- However a map was made, it holds what it was given last. -/
theorem get?_settings (m : Making) (k : String) : m.settings.get? k = m.given k := by
  induction m with
  | nothing => rfl
  | set m key value ih => rw [settings, KeyMap.get?_insert, ih, given, Function.update_apply]
  | laid upper lower ihUpper ihLower => rw [settings, KeyMap.get?_atop, ihUpper, ihLower, given]

/-- **Settings are what their keys were given, in key order**, however they were made; and laying
some over others has the laws of an overlay, as an equation of the maps. -/
theorem settings_exact :
    (∀ m : Making, m.settings.Agrees m.given) ∧
    ∀ a b c : Properties,
      a.atop (b.atop c) = (a.atop b).atop c ∧
      a.atop a = a ∧
      KeyMap.empty.atop a = a ∧ a.atop .empty = a ∧
      (∀ k, (a.atop b).get? k = (a.get? k).or (b.get? k)) ∧
      (a.atop b = b.atop a ↔ ∀ k v w, a.get? k = some v → b.get? k = some w → v = w) :=
  ⟨fun m => Properties.agrees_of_get? m.get?_settings, fun a b c =>
    ⟨a.atop_assoc b c, a.atop_self, a.empty_atop, a.atop_empty, a.get?_atop b,
      KeyMap.atop_comm_iff⟩⟩

end Making

end Waybill
