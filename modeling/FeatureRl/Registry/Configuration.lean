import FeatureRl.Lib.JsonSize
import FeatureRl.Registry.Storage
import FeatureRl.Registry.Transitions

/-!
The configuration of a registry fits the bound that opening enforces, whatever its limits,
and reads back as the limits it was written from.
-/

namespace FeatureRl

open Checked

namespace Storage

theorem memberSize_le {key : String} {value : Json} {keySize valueSize : Nat}
    (short : key.toList.length ≤ keySize) (small : value.canonical.length ≤ valueSize) :
    Json.memberSize (key, value) ≤ 6 * keySize + valueSize + 4 := by
  have text := Json.length_renderString_le key
  simp only [Json.memberSize]
  omega

theorem length_limit_le (limits : RegistryLimits) :
    ∀ member ∈ RegistryLimits.fields.members limits,
      member.2.canonical.length ≤ 1200 ∧ member.1.toList.length ≤ 30 := by
  have count {low high : Nat} (small : high < 10 ^ 10) (value : Bounded low high) :
      ((Bounded.codec low high).document value).canonical.length ≤ 1200 :=
    (Bounded.length_document_le (by decide) small value).trans (by decide)
  have timeout : (LockTimeout.codec.document limits.lockTimeoutSeconds).canonical.length ≤ 1200 :=
    Json.length_canonical_float_le _
  simp only [RegistryLimits.fields, Fields.view_members, Fields.and_members,
    Fields.fieldOr_members, List.forall_mem_append, List.forall_mem_singleton]
  refine ⟨⟨count ?_ _, ?_⟩, ⟨count ?_ _, ?_⟩, ⟨count ?_ _, ?_⟩, ⟨count ?_ _, ?_⟩, ⟨count ?_ _, ?_⟩,
    ⟨count ?_ _, ?_⟩, ⟨count ?_ _, ?_⟩, ⟨count ?_ _, ?_⟩, ⟨count ?_ _, ?_⟩, ⟨count ?_ _, ?_⟩,
    ⟨count ?_ _, ?_⟩, ⟨count ?_ _, ?_⟩, ⟨count ?_ _, ?_⟩, timeout, ?_⟩
  all_goals decide

theorem length_limits_le (limits : RegistryLimits) :
    (RegistryLimits.codec.document limits).canonical.length ≤ 20000 := by
  refine (Json.length_canonical_dict_le _).trans ?_
  have sizes : ∀ size ∈ (RegistryLimits.fields.members limits).map Json.memberSize,
      size ≤ 1400 := by
    intro size found
    obtain ⟨⟨key, value⟩, listed, rfl⟩ := List.mem_map.mp found
    obtain ⟨small, short⟩ := length_limit_le limits _ listed
    exact (memberSize_le short small).trans (by decide)
  have sum : _ ≤ _ * 1400 := List.sum_le_card_nsmul _ 1400 sizes
  have count : ((RegistryLimits.fields.members limits).map Json.memberSize).length = 14 := by
    rw [List.length_map, ← List.length_map Prod.fst, RegistryLimits.fields.members_keys]
    rfl
  rw [count] at sum
  omega

/-- The text of every configuration is well below the limit that opening enforces. -/
theorem length_config_le (storeRoot : StoreRoot) (limits : RegistryLimits) :
    (config storeRoot limits).length ≤ 65536 := by
  have short : storeRoot.val.toList.length ≤ 4096 := of_decide_eq_true storeRoot.property
  have version : Json.memberSize ("version", .int 1) ≤ 6 * 7 + 3 + 4 :=
    memberSize_le (Nat.le_refl _) (Json.length_canonical_int_le (by decide) (by decide))
  have capacity : Json.memberSize ("limits", RegistryLimits.codec.document limits) ≤
      6 * 6 + 20000 + 4 := memberSize_le (Nat.le_refl _) (length_limits_le limits)
  have root : Json.memberSize ("store_root", .str storeRoot.val) ≤
      6 * 10 + (6 * storeRoot.val.toList.length + 2) + 4 :=
    memberSize_le (Nat.le_refl _) (Json.length_canonical_str_le storeRoot.val)
  refine (Json.length_canonical_dict_le _).trans ?_
  simp only [configurationMembers, List.map_cons, List.map_nil, List.sum_cons, List.sum_nil]
  omega

theorem matchesText_str {text other : String} :
    State.matchesText text (.str other) = true ↔ other = text := by
  simp [State.matchesText]

/-- The members of a dictionary are read back by key. -/
theorem member_sortMembers {members : Json.Members} (unique : (members.map Prod.fst).Nodup)
    {key : String} {value : Json} (listed : (key, value) ∈ members) :
    member (Json.sortMembers members) key = value := by
  rw [member, Json.lookup_sortMembers unique listed, Option.getD_some]

theorem hasShape_sortMembers (members : Json.Members) :
    State.hasShape (Json.sortMembers members) (members.map Prod.fst) = true := by
  have keys := (Json.sortMembers_perm members).map Prod.fst
  simp only [State.hasShape, Bool.and_eq_true, List.all_eq_true, decide_eq_true_eq]
  exact ⟨fun entry found => keys.subset (List.mem_map_of_mem found),
    fun key found => keys.symm.subset found⟩

/-- A configuration is accepted by clients of its own artifact store only. -/
theorem readConfiguration_eq_ok {storeRoot other : StoreRoot} {limits result : RegistryLimits} :
    readConfiguration other (config storeRoot limits) = .ok result ↔
      other = storeRoot ∧ result = limits := by
  have unique : ((configurationMembers storeRoot limits).map Prod.fst).Nodup := by
    change ["version", "limits", "store_root"].Nodup
    decide
  have formed : (Json.dict (configurationMembers storeRoot limits)).normal = true :=
    Json.normal_dict unique (by
      simp only [configurationMembers, List.forall_mem_cons, List.not_mem_nil, false_imp_iff,
        implies_true, and_true]
      exact ⟨rfl, RegistryLimits.codec.normal limits, rfl⟩)
  have shaped : State.hasShape (Json.sortMembers (configurationMembers storeRoot limits))
      ["version", "limits", "store_root"] = true := hasShape_sortMembers _
  have version : member (Json.sortMembers (configurationMembers storeRoot limits)) "version" =
      .int 1 := member_sortMembers unique (by simp [configurationMembers])
  have stored : member (Json.sortMembers (configurationMembers storeRoot limits)) "limits" =
      RegistryLimits.codec.document limits :=
    member_sortMembers unique (by simp [configurationMembers])
  have root : member (Json.sortMembers (configurationMembers storeRoot limits)) "store_root" =
      .str storeRoot.val := member_sortMembers unique (by simp [configurationMembers])
  have bounded : ¬ 65536 < (config storeRoot limits).length :=
    Nat.not_lt.mpr (length_config_le storeRoot limits)
  have loaded : Json.loads (config storeRoot limits) =
      some (.obj (Json.sortMembers (configurationMembers storeRoot limits))) :=
    Json.loads_canonical formed
  have canonical : (Json.obj (Json.sortMembers (configurationMembers storeRoot limits))).canonical =
      config storeRoot limits := rfl
  rw [readConfiguration, bind_eq_ok]
  simp only [refuse_eq_ok, bounded, not_false_eq_true, true_and, exists_const, bind_eq_ok,
    require_eq_ok, loaded, Option.some.injEq, exists_eq_left', shaped, version, stored, root,
    canonical, Codec.validate_document, isVersionOne, decide_true, not_or, Bool.true_eq_false,
    Bool.not_eq_false, ne_eq, not_true_eq_false, matchesText_str, and_true]
  exact and_congr ⟨fun same => (Subtype.ext same).symm, fun same => same ▸ rfl⟩ eq_comm

end Storage

end FeatureRl
