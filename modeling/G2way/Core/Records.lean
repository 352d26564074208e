import G2way.Core.ApiDefinition
import G2way.Lib.Text

/-!
# Stored records

The records the admin API stores, as JSON "under a deterministic per-org key": API definitions,
policies and key sessions. Their validation, from `g2-core/src/policy.rs` and `session.rs`, asks
of an organization and of an id that they are not blank, and no more.

A key is `g2:{org_id}:{kind}:{id}`, and a scan of the prefix `g2:{org_id}:{kind}:` enumerates the
records of one kind of an organization. Nothing is escaped. So the id of an organization that
begins with the id of another and the segment of a kind lies inside the key space of that other
organization (`Nested`).

## What is proved

`prefix_of_key`: a prefix covers a key of its own kind and organization, or one of the two
organizations lies inside the other. `exists_prefix_of_key` is the converse.
-/

namespace G2way.Core

open G2way.Lib G2way.Lib.Result

/-! ### Validation -/

/-- The checks of a rate and a quota, for sessions and policies alike. -/
def validateAllowance (rate : Option RateLimit) (quota : Option Quota) : Except String Unit := do
  ifSome rate fun rate => do
    ensure (rate.requests ≠ 0) "`rate.requests` must be greater than zero"
    ensure (rate.perSeconds ≠ 0) "`rate.per_seconds` must be greater than zero"
  ifSome quota fun quota => do
    ensure (quota.max ≠ 0) "`quota.max` must be greater than zero"
    ensure (quota.renewalRateSecs ≠ 0) "`quota.renewal_rate_secs` must be greater than zero"

/-- `Policy::validate`, with the reason of its error. -/
def Policy.validate (p : Policy) : Except String Unit := do
  ensure (Text.trim p.policyId ≠ "") "`policy_id` must not be empty"
  ensure (Text.trim p.name ≠ "") "`name` must not be empty"
  ensure (Text.trim p.orgId ≠ "") "`org_id` must not be empty"
  validateAllowance p.rate p.quota
  p.access.forM fun (apiId, _) => ensure (Text.trim apiId ≠ "") "`access` keys (api_id) must not be empty"

/-- `ApiAccess::validate`. -/
def ApiAccess.validate (a : ApiAccess) : Except String Unit :=
  [("allowed_types", a.allowedTypes), ("restricted_types", a.restrictedTypes)].forM fun (list, entries) =>
    entries.forM fun entry => do
      ensure (Text.trim entry.name ≠ "") s!"`access.{list}` entries must have a non-empty type name"
      ensure (¬ entry.fields.any fun f => Text.trim f == "")
        s!"`access.{list}` field names must not be empty (use \"*\" for all)"

/-- `KeySession::validate`, with the reason of its error. -/
def KeySession.validate (s : KeySession) : Except String Unit := do
  ensure (Text.trim s.orgId ≠ "") "`org_id` must not be empty"
  validateAllowance s.rate s.quota
  s.access.forM fun (apiId, grant) => do
    ensure (Text.trim apiId ≠ "") "`access` keys (api_id) must not be empty"
    grant.validate
  ifSome s.basicAuth fun basic =>
    ensure (Text.trim basic.passwordHash ≠ "") "`basic_auth.password_hash` must not be empty"
  ifSome s.hmac fun hmac => ensure (Text.trim hmac.secret ≠ "") "`hmac.secret` must not be empty"
  ensure (s.applyPolicies.length ≤ 1) ("`apply_policies` currently supports at most one policy " ++
    "(combining policies needs partitioned policies, not yet implemented)")
  ensure (¬ s.applyPolicies.any fun p => Text.trim p == "") "`apply_policies` entries must not be empty"

/-! ### Keys -/

/-- The kinds of records. -/
inductive Kind where
  | apiDefinition
  | policy
  | session
  deriving DecidableEq, Repr

namespace Kind

/-- The kind's place in a key. -/
def text : Kind → String
  | apiDefinition => "apidef"
  | policy => "policy"
  | session => "apikey"

/-- Prefix shared by every key of this kind in an organization. -/
def keyPrefix (k : Kind) (orgId : String) : String := "g2:" ++ orgId ++ ":" ++ k.text ++ ":"

/-- The key of one record. -/
def storageKey (k : Kind) (orgId id : String) : String := k.keyPrefix orgId ++ id

end Kind

/-- `api_definition_key_prefix`. -/
def apiDefinitionKeyPrefix (orgId : String) : String := Kind.apiDefinition.keyPrefix orgId

/-- `api_definition_storage_key`. -/
def apiDefinitionStorageKey (orgId apiId : String) : String := Kind.apiDefinition.storageKey orgId apiId

theorem policyKeyPrefix_eq (orgId : String) : policyKeyPrefix orgId = Kind.policy.keyPrefix orgId := by
  apply String.toList_injective
  simp [policyKeyPrefix, Kind.keyPrefix, Kind.text]

/-! ### Organizations inside one another -/

/-- The organization `o'` lies inside the keys of the kind `k` of the organization `o`: its id is `o:kind`, or begins
with `o:kind:`. -/
def Nested (k : Kind) (o o' : String) : Prop :=
  List.IsPrefix (o.toList ++ ':' :: (k.text.toList ++ [':'])) (o'.toList ++ [':'])

instance (k : Kind) (o o' : String) : Decidable (Nested k o o') :=
  inferInstanceAs (Decidable (List.IsPrefix _ _))

theorem Kind.colon_not_mem (k : Kind) : ':' ∉ k.text.toList := by cases k <;> decide

theorem Kind.text_injective {k k' : Kind} (h : k.text.toList = k'.text.toList) : k = k' := by
  revert h
  cases k <;> cases k' <;> decide

/-- A key, character by character. -/
theorem toList_storageKey (k : Kind) (o i : String) : (k.storageKey o i).toList =
    'g' :: '2' :: ':' :: (o.toList ++ ':' :: (k.text.toList ++ ':' :: i.toList)) := by
  simp [Kind.storageKey, Kind.keyPrefix]

theorem toList_keyPrefix (k : Kind) (o : String) : (k.keyPrefix o).toList =
    'g' :: '2' :: ':' :: (o.toList ++ ':' :: (k.text.toList ++ [':'])) := by
  simp [Kind.keyPrefix]

/-- An id that goes on with a separator behind `o` and the kind's text is nested. -/
theorem nested_of_append {k : Kind} {o o' : String} {s t u : List Char} (ho : o'.toList = o.toList ++ ':' :: s)
    (hs : k.text.toList ++ ':' :: t = s ++ ':' :: u) : Nested k o o' := by
  rcases Text.append_cons_eq_append_cons hs with ⟨hk, -⟩ | ⟨v, hk, -⟩ | ⟨v, hk, -⟩
  · exact ⟨[], by simp [ho, hk]⟩
  · exact ⟨v ++ [':'], by simp [ho, hk]⟩
  · exact absurd (by simp [hk]) k.colon_not_mem

/-- What a prefix covers: the keys of its own kind and organization, or one of the two organizations is nested in the
other. -/
theorem prefix_of_key {k k' : Kind} {o o' i : String}
    (h : List.IsPrefix (k.keyPrefix o).toList (k'.storageKey o' i).toList) :
    (k = k' ∧ o = o') ∨ Nested k o o' ∨ Nested k' o' o := by
  obtain ⟨t, ht⟩ := h
  have hjoin : o.toList ++ ':' :: (k.text.toList ++ ':' :: t) =
      o'.toList ++ ':' :: (k'.text.toList ++ ':' :: i.toList) := by
    simpa [toList_keyPrefix, toList_storageKey] using ht
  rcases Text.append_cons_eq_append_cons hjoin with ⟨ho, hk⟩ | ⟨s, ho, hs⟩ | ⟨s, ho, hs⟩
  · obtain ⟨hkind, -⟩ := Text.append_cons_inj_of_not_mem k.colon_not_mem k'.colon_not_mem hk
    exact .inl ⟨Kind.text_injective hkind, String.toList_injective ho⟩
  · exact .inr (.inl (nested_of_append ho hs))
  · exact .inr (.inr (nested_of_append ho hs))

/-- The prefix of an organization covers every key of the organizations nested in it. -/
theorem Nested.prefix_key {k : Kind} {o o' : String} (h : Nested k o o') (k' : Kind) (i : String) :
    List.IsPrefix (k.keyPrefix o).toList (k'.storageKey o' i).toList := by
  obtain ⟨t, ht⟩ := h
  refine ⟨t ++ (k'.text.toList ++ ':' :: i.toList), ?_⟩
  have hjoin : o'.toList ++ ':' :: (k'.text.toList ++ ':' :: i.toList) =
      (o'.toList ++ [':']) ++ (k'.text.toList ++ ':' :: i.toList) := by simp
  rw [toList_keyPrefix, toList_storageKey, hjoin, ← ht]
  simp

/-- No organization is nested in itself. -/
theorem not_nested_self (k : Kind) (o : String) : ¬ Nested k o o := by
  intro h
  have := h.length_le
  simp only [List.length_append, List.length_cons, List.length_nil] at this
  omega

/-- Records of one kind and organization with one key are one record. -/
theorem id_eq_of_storageKey {k : Kind} {o i i' : String} (h : k.storageKey o i = k.storageKey o i') : i = i' := by
  have hlist := congrArg String.toList h
  simp only [toList_storageKey, List.cons.injEq, true_and, List.append_cancel_left_eq] at hlist
  exact String.toList_injective hlist

/-- The id of a nested organization is not blank. -/
theorem Nested.trim_ne {k : Kind} {o o' : String} (h : Nested k o o') : Text.trim o' ≠ "" := by
  obtain ⟨ch, hmem, hcolon, hspace⟩ : ∃ ch ∈ k.text.toList, ch ≠ ':' ∧ Text.isWhitespace ch = false := by
    cases k <;> exact ⟨_, List.mem_cons_self .., by decide, by decide⟩
  have hin : ch ∈ o'.toList ++ [':'] := h.subset (by simp [hmem])
  refine Text.trim_ne_empty (c := ch) ?_ hspace
  simpa [hcolon] using hin

end G2way.Core
