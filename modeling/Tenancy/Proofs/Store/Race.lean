import Tenancy.Proofs.Store.Growth

/-!
# Races for an address

Invitations that come together are carried out one by one, in an order that nobody chooses. Whatever
the order, an address that is free in an organization goes to exactly one of those that seek it, and
an address that is not free to none (`Store.settled_in_every_order`). The order does not matter
because an address is taken afterwards exactly if it was taken before or is sought by somebody
(`Store.taken_afterAll_iff`).
-/

namespace Tenancy

/-- Somebody is to become a member of an organization. -/
structure Invitation where
  owner : String
  request : InviteMember

/-- The invitation is to an organization and an address, in whatever case. -/
def Invitation.Seeks (invitation : Invitation) (owner email : String) : Prop :=
  invitation.owner = owner ∧ Text.sameIgnoringCase invitation.request.email email = true

instance (invitation : Invitation) (owner email : String) :
    Decidable (invitation.Seeks owner email) :=
  inferInstanceAs (Decidable (_ ∧ _))

namespace Store

/-- An invitation as it is carried out: with the id that was drawn for the member. -/
structure Attempt where
  invitation : Invitation
  id : String

def Attempt.call (attempt : Attempt) : Call :=
  .operate attempt.invitation.owner (.inviteMember attempt.id attempt.invitation.request)

/-- What an attempt is told. -/
def reply (store : Store) (attempt : Attempt) : Except StoreError MemberView :=
  (store.inviteMember attempt.invitation.owner attempt.id attempt.invitation.request).1

/-- The store after attempts in their order. -/
def afterAll (store : Store) (attempts : List Attempt) : Store :=
  (attempts.map Attempt.call).foldl call store

/-- How many of the attempts that seek an address are granted it. -/
def admissions (store : Store) (owner email : String) : List Attempt → Nat
  | [] => 0
  | attempt :: rest =>
      (if attempt.invitation.Seeks owner email ∧ (store.reply attempt).isOk then 1 else 0) +
        (store.call attempt.call).admissions owner email rest

/-- The organization exists. -/
def Hosts (store : Store) (owner : String) : Prop :=
  ∃ organization, store.organization? owner = some organization

/-- Some member of the organization has the address, in whatever case. -/
def Taken (store : Store) (owner email : String) : Prop :=
  ∃ id member, store.member? id = some member ∧ member.organizationId = owner ∧
    Text.sameIgnoringCase member.email email = true

/-- The address may be given to a new member of the organization. -/
def Free (store : Store) (owner email : String) : Prop :=
  store.Hosts owner ∧ ¬store.Taken owner email

/-- The ids of the attempts are new. -/
structure Vacant (store : Store) (attempts : List Attempt) : Prop where
  distinct : (attempts.map Attempt.id).Nodup
  unused : ∀ attempt ∈ attempts, store.member? attempt.id = none

variable {store : Store} {owner email : String}

theorem hasEmail_eq_true_iff : store.hasEmail owner email = true ↔ store.Taken owner email := by
  rw [← not_iff_not, Bool.not_eq_true, hasEmail_eq_false_iff, Taken]
  simp only [not_exists, not_and, Bool.not_eq_true]

/-- Whether an address is taken does not depend on its case. -/
theorem taken_congr {other : String} (same : Text.sameIgnoringCase email other = true) :
    store.Taken owner email ↔ store.Taken owner other := by
  have folded := Text.sameIgnoringCase_iff.mp same
  simp only [Taken, Text.sameIgnoringCase_iff, folded]

/-! ### One attempt -/

section Attempt

variable (attempt : Attempt)

/-- An attempt is granted just if the address is free, and then it adds a member; else it leaves
the store as it is. -/
theorem attempt_cases (store : Store) :
    (store.Free attempt.invitation.owner attempt.invitation.request.email ∧
      (store.reply attempt).isOk = true ∧ store.call attempt.call =
        store.withMember attempt.id
          (invited attempt.invitation.owner attempt.id attempt.invitation.request)) ∨
    (¬store.Free attempt.invitation.owner attempt.invitation.request.email ∧
      (store.reply attempt).isOk = false ∧ store.call attempt.call = store) := by
  obtain ⟨⟨owner, request⟩, id⟩ := attempt
  simp only [reply, Attempt.call, call, operate]
  cases made : store.inviteMember owner id request with
  | mk outcome after =>
      cases outcome with
      | ok view =>
          obtain ⟨organization, found, untaken, -, rfl⟩ := inviteMember_eq_ok_iff.mp made
          have free : ¬store.Taken owner request.email := by
            rw [← hasEmail_eq_true_iff, untaken]
            exact Bool.false_ne_true
          exact .inl ⟨⟨⟨organization, found⟩, free⟩, rfl, rfl⟩
      | error reason =>
          obtain rfl := eq_of_inviteMember_eq_error made
          refine .inr ⟨?_, rfl, rfl⟩
          rintro ⟨⟨organization, found⟩, untaken⟩
          rw [← hasEmail_eq_true_iff, Bool.not_eq_true] at untaken
          have granted : after.inviteMember owner id request = (.ok _, _) :=
            inviteMember_eq_ok_iff.mpr ⟨organization, found, untaken, rfl, rfl⟩
          cases made.symm.trans granted

theorem hosts_call_attempt : (store.call attempt.call).Hosts owner ↔ store.Hosts owner := by
  obtain ⟨-, -, after⟩ | ⟨-, -, after⟩ := attempt_cases attempt store
  · rw [after]
    exact Iff.rfl
  · rw [after]

/-- After an attempt the addresses are taken that were taken before, and the one that is sought. -/
theorem taken_call_attempt_iff (unused : store.member? attempt.id = none) :
    (store.call attempt.call).Taken owner email ↔
      store.Taken owner email ∨ store.Hosts owner ∧ attempt.invitation.Seeks owner email := by
  obtain ⟨⟨hosts, -⟩, -, after⟩ | ⟨busy, -, after⟩ := attempt_cases attempt store
  · rw [after]
    constructor
    · rintro ⟨id, member, found, belongs, same⟩
      obtain ⟨-, rfl⟩ | before := eq_or_member?_of_withMember found
      · exact .inr ⟨belongs ▸ hosts, belongs, same⟩
      · exact .inl ⟨id, member, before, belongs, same⟩
    · rintro (⟨id, member, found, belongs, same⟩ | ⟨-, seeks⟩)
      · have different : attempt.id ≠ id := by
          rintro rfl
          exact nomatch unused.symm.trans found
        exact ⟨id, member, by rw [member?_withMember, if_neg different, found], belongs, same⟩
      · have found := (member?_withMember store attempt.id
          (invited attempt.invitation.owner attempt.id attempt.invitation.request) _).trans
            (if_pos rfl)
        exact ⟨attempt.id, _, found, seeks⟩
  · rw [after, iff_self_or]
    rintro ⟨hosts, rfl, same⟩
    rw [← taken_congr same]
    exact of_not_not fun untaken => busy ⟨hosts, untaken⟩

theorem isOk_reply_iff_of_seeks (seeks : attempt.invitation.Seeks owner email) :
    (store.reply attempt).isOk = true ↔ store.Free owner email := by
  obtain ⟨rfl, same⟩ := seeks
  rw [Free, ← taken_congr same]
  obtain ⟨free, granted, -⟩ | ⟨busy, refused, -⟩ := attempt_cases attempt store
  · exact iff_of_true granted free
  · exact iff_of_false (Bool.eq_false_iff.mp refused) busy

end Attempt

/-! ### Attempts in a row -/

theorem Vacant.rest {attempt : Attempt} {rest : List Attempt}
    (vacant : store.Vacant (attempt :: rest)) : (store.call attempt.call).Vacant rest := by
  obtain ⟨distinct, unused⟩ := vacant
  obtain ⟨fresh, distinct⟩ := List.nodup_cons.mp distinct
  refine ⟨distinct, fun later listed => ?_⟩
  have stays := unused later (List.mem_cons_of_mem _ listed)
  obtain ⟨-, -, after⟩ | ⟨-, -, after⟩ := attempt_cases attempt store
  · have different : attempt.id ≠ later.id := fun same =>
      fresh (same ▸ List.mem_map_of_mem listed)
    rw [after, member?_withMember, if_neg different, stays]
  · rw [after, stays]

/-- An address is taken in the end exactly if it was at the start or an attempt seeks it, so the
order of the attempts does not matter. -/
theorem taken_afterAll_iff {attempts : List Attempt} (vacant : store.Vacant attempts) :
    (store.afterAll attempts).Taken owner email ↔ store.Taken owner email ∨
      store.Hosts owner ∧ ∃ attempt ∈ attempts, attempt.invitation.Seeks owner email := by
  induction attempts generalizing store with
  | nil => simp [afterAll]
  | cons attempt rest inductionHypothesis =>
      have unused := vacant.unused attempt List.mem_cons_self
      calc (store.afterAll (attempt :: rest)).Taken owner email
        _ ↔ ((store.call attempt.call).afterAll rest).Taken owner email := Iff.rfl
        _ ↔ (store.Taken owner email ∨ store.Hosts owner ∧ attempt.invitation.Seeks owner email) ∨
            store.Hosts owner ∧ ∃ later ∈ rest, later.invitation.Seeks owner email := by
          rw [inductionHypothesis vacant.rest, taken_call_attempt_iff attempt unused,
            hosts_call_attempt]
        _ ↔ _ := by
          simp only [List.mem_cons, exists_eq_or_imp]
          rw [or_assoc, ← and_or_left]

/-- Nobody is granted an address that is not free, or that nobody seeks. -/
theorem admissions_eq_zero {attempts : List Attempt} (vacant : store.Vacant attempts)
    (idle : ¬(store.Free owner email ∧
      ∃ attempt ∈ attempts, attempt.invitation.Seeks owner email)) :
    store.admissions owner email attempts = 0 := by
  induction attempts generalizing store with
  | nil => rfl
  | cons attempt rest inductionHypothesis =>
      have refused : ¬(attempt.invitation.Seeks owner email ∧ (store.reply attempt).isOk) := by
        rintro ⟨seeks, granted⟩
        have free := (isOk_reply_iff_of_seeks attempt seeks).mp granted
        exact idle ⟨free, attempt, List.mem_cons_self, seeks⟩
      have stillIdle : ¬((store.call attempt.call).Free owner email ∧
          ∃ later ∈ rest, later.invitation.Seeks owner email) := by
        have unused := vacant.unused attempt List.mem_cons_self
        rw [Free, hosts_call_attempt, taken_call_attempt_iff attempt unused]
        rintro ⟨⟨hosts, untaken⟩, later, listed, seeks⟩
        have free : store.Free owner email := ⟨hosts, fun taken => untaken (.inl taken)⟩
        exact idle ⟨free, later, List.mem_cons_of_mem _ listed, seeks⟩
      rw [admissions, if_neg refused, Nat.zero_add, inductionHypothesis vacant.rest stillIdle]

/-- Of those that seek a free address one is granted it. -/
theorem admissions_eq_one {attempts : List Attempt} (vacant : store.Vacant attempts)
    (free : store.Free owner email)
    (sought : ∃ attempt ∈ attempts, attempt.invitation.Seeks owner email) :
    store.admissions owner email attempts = 1 := by
  induction attempts generalizing store with
  | nil =>
      obtain ⟨attempt, none, -⟩ := sought
      exact nomatch none
  | cons attempt rest inductionHypothesis =>
      have unused := vacant.unused attempt List.mem_cons_self
      by_cases seeks : attempt.invitation.Seeks owner email
      · -- the first one that seeks the address is granted it, and then it is taken
        have granted := (isOk_reply_iff_of_seeks attempt seeks).mpr free
        have busy : ¬(store.call attempt.call).Free owner email := fun ⟨_, untaken⟩ =>
          untaken ((taken_call_attempt_iff attempt unused).mpr (.inr ⟨free.1, seeks⟩))
        have none := admissions_eq_zero vacant.rest fun both => busy both.1
        rw [admissions, if_pos ⟨seeks, granted⟩, none]
      · have stillFree : (store.call attempt.call).Free owner email := by
          rw [Free, hosts_call_attempt, taken_call_attempt_iff attempt unused]
          exact ⟨free.1, not_or.mpr ⟨free.2, fun ⟨_, sought⟩ => seeks sought⟩⟩
        have soughtLater : ∃ later ∈ rest, later.invitation.Seeks owner email := by
          obtain ⟨later, listed, soughtBy⟩ := sought
          rcases List.mem_cons.mp listed with rfl | listed
          · exact absurd soughtBy seeks
          · exact ⟨later, listed, soughtBy⟩
        rw [admissions, if_neg (fun both => seeks both.1), Nat.zero_add,
          inductionHypothesis vacant.rest stillFree soughtLater]

/-- Whether an address is sought depends on the invitations, not on their order or ids. -/
theorem sought_iff_of_perm {attempts others : List Attempt}
    (reordered : (attempts.map Attempt.invitation).Perm (others.map Attempt.invitation)) :
    (∃ attempt ∈ attempts, attempt.invitation.Seeks owner email) ↔
      ∃ attempt ∈ others, attempt.invitation.Seeks owner email := by
  have byInvitation (attempts : List Attempt) :
      (∃ attempt ∈ attempts, attempt.invitation.Seeks owner email) ↔
        ∃ invitation ∈ attempts.map Attempt.invitation, invitation.Seeks owner email := by
    simp only [List.mem_map, exists_exists_and_eq_and]
  simp only [byInvitation, reordered.mem_iff]

/-- Attempts at the same invitations, in any order and with whatever new ids, grant a free address
that is sought to one of them and any other address to none, and leave the same addresses taken.
One that is refused leaves the store as it is. -/
theorem settled_in_every_order {store : Store} {attempts : List Attempt}
    (vacant : store.Vacant attempts) :
    (∀ owner email, store.Free owner email →
      (∃ attempt ∈ attempts, attempt.invitation.Seeks owner email) →
        store.admissions owner email attempts = 1) ∧
    (∀ owner email, ¬(store.Free owner email ∧
      ∃ attempt ∈ attempts, attempt.invitation.Seeks owner email) →
        store.admissions owner email attempts = 0) ∧
    (∀ others : List Attempt, store.Vacant others →
      (attempts.map Attempt.invitation).Perm (others.map Attempt.invitation) → ∀ owner email,
        store.admissions owner email attempts = store.admissions owner email others ∧
          ((store.afterAll attempts).Taken owner email ↔
            (store.afterAll others).Taken owner email)) ∧
    ∀ (reached : Store) (attempt : Attempt), (reached.reply attempt).isOk = false →
      reached.call attempt.call = reached := by
  refine ⟨fun _ _ => admissions_eq_one vacant, fun _ _ => admissions_eq_zero vacant, ?_, ?_⟩
  · intro others othersVacant reordered owner email
    have sought := @sought_iff_of_perm owner email _ _ reordered
    constructor
    · by_cases granted : store.Free owner email ∧
        ∃ attempt ∈ attempts, attempt.invitation.Seeks owner email
      · rw [admissions_eq_one vacant granted.1 granted.2,
          admissions_eq_one othersVacant granted.1 (sought.mp granted.2)]
      · have refused := mt (And.imp_right sought.mpr) granted
        rw [admissions_eq_zero vacant granted, admissions_eq_zero othersVacant refused]
    · rw [taken_afterAll_iff vacant, taken_afterAll_iff othersVacant, sought]
  · intro reached attempt refused
    obtain ⟨-, granted, -⟩ | ⟨-, -, unchanged⟩ := attempt_cases attempt reached
    · exact nomatch refused.symm.trans granted
    · exact unchanged

/-- Two rivals for one address, another one for the member's address, and one who seeks an
organization that does not exist. -/
def rivals : List Attempt :=
  [⟨⟨"org_1", ⟨"b@B", .viewer, false, none, none⟩⟩, "mem_2"⟩,
    ⟨⟨"org_1", ⟨"B@b", .owner, false, none, none⟩⟩, "mem_3"⟩,
    ⟨⟨"org_1", ⟨"A@A", .viewer, false, none, none⟩⟩, "mem_4"⟩,
    ⟨⟨"org_2", ⟨"b@b", .viewer, false, none, none⟩⟩, "mem_5"⟩]

/-- The same invitations the other way round. -/
def reversedRivals : List Attempt :=
  [⟨⟨"org_2", ⟨"b@b", .viewer, false, none, none⟩⟩, "mem_6"⟩,
    ⟨⟨"org_1", ⟨"A@A", .viewer, false, none, none⟩⟩, "mem_7"⟩,
    ⟨⟨"org_1", ⟨"B@b", .owner, false, none, none⟩⟩, "mem_8"⟩,
    ⟨⟨"org_1", ⟨"b@B", .viewer, false, none, none⟩⟩, "mem_9"⟩]

theorem settled_in_every_order_rivals :
    (run founding).Vacant rivals ∧ (run founding).Vacant reversedRivals ∧
      (run founding).Free "org_1" "b@b" ∧
      (run founding).admissions "org_1" "b@b" rivals = 1 ∧
      (run founding).admissions "org_1" "b@b" reversedRivals = 1 ∧
      (run founding).admissions "org_2" "b@b" rivals = 0 ∧
      (((run founding).afterAll rivals).Taken "org_1" "b@b" ↔
        ((run founding).afterAll reversedRivals).Taken "org_1" "b@b") := by
  have vacant : (run founding).Vacant rivals := ⟨by decide, by decide⟩
  have vacantReversed : (run founding).Vacant reversedRivals := ⟨by decide, by decide⟩
  have reordered : (rivals.map Attempt.invitation).Perm (reversedRivals.map Attempt.invitation) :=
    (List.reverse_perm (rivals.map Attempt.invitation)).symm
  have free : (run founding).Free "org_1" "b@b" := by
    refine ⟨⟨⟨"org_1", "A", .free, .empty⟩, by decide⟩, ?_⟩
    rw [← hasEmail_eq_true_iff]
    decide
  have homeless : ¬(run founding).Hosts "org_2" := by
    rintro ⟨organization, found⟩
    exact nomatch found
  obtain ⟨granted, refused, agrees, -⟩ := settled_in_every_order vacant
  obtain ⟨same, taken⟩ := agrees reversedRivals vacantReversed reordered "org_1" "b@b"
  have one := granted "org_1" "b@b" free ⟨_, List.mem_cons_self, rfl, by decide⟩
  exact ⟨vacant, vacantReversed, free, one, same ▸ one,
    refused "org_2" "b@b" fun both => homeless both.1.1, taken⟩

end Store

end Tenancy
