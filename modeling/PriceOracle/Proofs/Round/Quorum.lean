import Mathlib.Data.List.Forall2
import PriceOracle.Round.Quorum
/-! Lists of signatures. A list is accepted just if every signature recovers, the signers ascend strictly and each of
them is a member. Of a list that is refused, the error tells of the first signature that fails, seen against all
that stand before it, although each is compared with its neighbour only. -/
namespace PriceOracle

/-! ### Accepted lists -/

/-- In an ascending row, what is above the one below is above all below. -/
theorem pairwise_lt_cons {above : Option Address} {signer : Address} {signers : List Address} :
    (above.toList ++ signer :: signers).Pairwise (·.toNat < ·.toNat)
      ↔ above.all (·.toNat < signer.toNat) ∧ (signer :: signers).Pairwise (·.toNat < ·.toNat) := by
  cases above with
  | none => simp
  | some b =>
    rw [Option.toList_some, List.singleton_append, List.pairwise_cons]
    simp only [Option.all_some, decide_eq_true_eq]
    refine and_congr_left fun hasc => ⟨fun h => h signer (List.mem_cons_self ..), fun h a ha => ?_⟩
    rcases List.mem_cons.1 ha with rfl | ha
    · exact h
    · exact Nat.lt_trans h ((List.pairwise_cons.1 hasc).1 a ha)

theorem signersFrom_eq_ok {hash : Hash} {isMember : Address → Bool} {signatures : List Signature} :
    ∀ {index : Nat} {above : Option Address} {signers : List Address},
    signersFrom hash isMember index above signatures = .ok signers
      ↔ List.Forall₂ (fun g a => recoverSigner hash g = .ok a) signatures signers ∧
        (above.toList ++ signers).Pairwise (·.toNat < ·.toNat) ∧ ∀ a ∈ signers, isMember a := by
  induction signatures with
  | nil =>
    intro index above signers
    unfold signersFrom
    constructor
    · intro h
      cases h
      exact ⟨.nil, by cases above <;> simp, by simp⟩
    · rintro ⟨h, -⟩
      cases h
      rfl
  | cons signature rest ih =>
    intro index above signers
    unfold signersFrom
    constructor
    · intro h
      split at h
      · cases h
      · rename_i signer hrec
        split at h
        · cases h
        · rename_i habove
          split at h
          · rename_i hmember
            cases hrest : signersFrom hash isMember (index + 1) (some signer) rest with
            | error e =>
              rw [hrest] at h
              cases h
            | ok signers' =>
              rw [hrest] at h
              cases h
              obtain ⟨hall, hasc, hmem⟩ := ih.1 hrest
              refine ⟨.cons hrec hall, pairwise_lt_cons.2 ⟨?_, hasc⟩, ?_⟩
              · cases above with
                | none => rfl
                | some b => simpa using habove
              · intro a ha
                rcases List.mem_cons.1 ha with rfl | ha
                · exact hmember
                · exact hmem a ha
          · cases h
    · rintro ⟨hall, hasc, hmem⟩
      cases hall with
      | @cons _ signer _ signers' hrec hrest =>
        obtain ⟨habove, hasc⟩ := pairwise_lt_cons.1 hasc
        have hnext : signersFrom hash isMember (index + 1) (some signer) rest = .ok signers' :=
          ih.2 ⟨hrest, hasc, fun a ha => hmem a (List.mem_cons_of_mem _ ha)⟩
        have hbelow : ¬ above.any (signer.toNat ≤ ·.toNat) := by
          cases above with
          | none => simp
          | some b => simpa using habove
        rw [hrec]
        simp only
        rw [if_neg hbelow, if_pos (hmem signer (List.mem_cons_self ..)), hnext]
        rfl

/-! ### Faults -/

/-- The signature at an index fails with an error, told from what the signatures of a list recover to. It recovers to
nobody; or its signer is not above each signer before it; or, where it is, the signer is no member. -/
inductive SignatureFault (isMember : Address → Bool) (recovered : List (Except CryptoError Address)) (index : Nat) :
    RoundError → Prop
  | unrecovered {e : CryptoError} (h : recovered[index]? = some (.error e)) :
    SignatureFault isMember recovered index (.cannotRecoverSignature index)
  | misplaced {signer earlier : Address} (h : recovered[index]? = some (.ok signer))
      (hearlier : .ok earlier ∈ recovered.take index) (hle : signer.toNat ≤ earlier.toNat) :
    SignatureFault isMember recovered index (.notUniqueOrNotOrdered index)
  | outsider {signer : Address} (h : recovered[index]? = some (.ok signer))
      (habove : ∀ earlier, .ok earlier ∈ recovered.take index → earlier.toNat < signer.toNat)
      (hmember : isMember signer = false) :
    SignatureFault isMember recovered index (.signerNotInRound signer)

/-- The first signature that fails does so with an error. -/
def FirstFault (isMember : Address → Bool) (recovered : List (Except CryptoError Address)) (e : RoundError) : Prop :=
  ∃ index, SignatureFault isMember recovered index e ∧
    ∀ earlier < index, ∀ e', ¬ SignatureFault isMember recovered earlier e'

section

variable {hash : Hash} {isMember : Address → Bool} {recovered : List (Except CryptoError Address)} {index : Nat}
  {e e' : RoundError} {signers : List Address} {signatures : List Signature}

theorem SignatureFault.lt_length (h : SignatureFault isMember recovered index e) : index < recovered.length := by
  cases h with
  | unrecovered h | misplaced h | outsider h => exact (List.getElem?_eq_some_iff.1 h).1

theorem signer_unique {a b : Address} (ha : recovered[index]? = some (.ok a)) (hb : recovered[index]? = some (.ok b)) :
    a = b :=
  Except.ok.inj (Option.some.inj (ha.symm.trans hb))

theorem SignatureFault.unique (h : SignatureFault isMember recovered index e)
    (h' : SignatureFault isMember recovered index e') : e = e' := by
  cases h with
  | unrecovered h =>
    cases h' with
    | unrecovered => rfl
    | misplaced h' | outsider h' => simp [h] at h'
  | misplaced h hearlier hle =>
    cases h' with
    | unrecovered h' => simp [h] at h'
    | misplaced => rfl
    | outsider h' habove =>
      obtain rfl := signer_unique h h'
      exact absurd (habove _ hearlier) (Nat.not_lt.2 hle)
  | outsider h habove =>
    cases h' with
    | unrecovered h' => simp [h] at h'
    | misplaced h' hearlier hle =>
      obtain rfl := signer_unique h h'
      exact absurd (habove _ hearlier) (Nat.not_lt.2 hle)
    | outsider h' => rw [signer_unique h h']

theorem FirstFault.unique (h : FirstFault isMember recovered e) (h' : FirstFault isMember recovered e') : e = e' := by
  obtain ⟨index, hfault, hbefore⟩ := h
  obtain ⟨index', hfault', hbefore'⟩ := h'
  rcases Nat.lt_trichotomy index index' with hlt | rfl | hlt
  · exact absurd hfault (hbefore' index hlt e)
  · exact hfault.unique hfault'
  · exact absurd hfault' (hbefore index' hlt e')

/-! ### Accepted beginnings -/

/-- Signers that a list may begin with: they ascend strictly, and each of them is a member. -/
structure Acceptable (isMember : Address → Bool) (signers : List Address) : Prop where
  ascending : signers.Pairwise (·.toNat < ·.toNat)
  members : ∀ a ∈ signers, isMember a

namespace Acceptable

theorem forall_lt {signer : Address} (h : Acceptable isMember signers)
    (hlast : ¬ signers.getLast?.any (signer.toNat ≤ ·.toNat)) : ∀ a ∈ signers, a.toNat < signer.toNat := by
  rcases List.eq_nil_or_concat' signers with rfl | ⟨before, last, rfl⟩
  · simp
  · have hlt : last.toNat < signer.toNat := by simpa using hlast
    intro a ha
    rcases List.mem_append.1 ha with ha | ha
    · exact Nat.lt_trans ((List.pairwise_append.1 h.ascending).2.2 a ha last (by simp)) hlt
    · obtain rfl := List.mem_singleton.1 ha
      exact hlt

theorem concat {signer : Address} (h : Acceptable isMember signers) (habove : ∀ a ∈ signers, a.toNat < signer.toNat)
    (hmember : isMember signer) : Acceptable isMember (signers ++ [signer]) where
  ascending := List.pairwise_append.2 ⟨h.ascending, List.pairwise_singleton _ _, fun a ha b hb => by
    obtain rfl := List.mem_singleton.1 hb
    exact habove a ha⟩
  members a ha := by
    rcases List.mem_append.1 ha with ha | ha
    · exact h.members a ha
    · obtain rfl := List.mem_singleton.1 ha
      exact hmember

/-- None of the signatures that they are recovered from fails, whatever follows. -/
theorem not_signatureFault (h : Acceptable isMember signers) (rest : List (Except CryptoError Address))
    (hindex : index < signers.length) : ¬ SignatureFault isMember (signers.map .ok ++ rest) index e := by
  have hget : (signers.map Except.ok ++ rest)[index]? = some (.ok signers[index]) := by
    rw [List.getElem?_append_left (by simpa using hindex), List.getElem?_map, List.getElem?_eq_getElem hindex]
    rfl
  intro hfault
  cases hfault with
  | unrecovered hnone => simp [hget] at hnone
  | misplaced hsome hearlier hle =>
    obtain rfl := signer_unique hget hsome
    rw [List.take_append_of_le_length (by simpa using Nat.le_of_lt hindex), ← List.map_take] at hearlier
    obtain ⟨a, ha, heq⟩ := List.mem_map.1 hearlier
    obtain rfl := Except.ok.inj heq
    obtain ⟨j, hj, rfl⟩ := List.mem_take_iff_getElem.1 ha
    have hlt := List.pairwise_iff_getElem.1 h.ascending j index (by omega) hindex (by omega)
    exact absurd hlt (Nat.not_lt.2 hle)
  | outsider hsome _ hout =>
    obtain rfl := signer_unique hget hsome
    rw [h.members _ (List.getElem_mem hindex)] at hout
    cases hout

end Acceptable

/-! ### Refused lists -/

theorem mem_take_recovered {a : Address} {rest : List (Except CryptoError Address)} :
    .ok a ∈ (signers.map Except.ok ++ rest).take signers.length ↔ a ∈ signers := by
  rw [List.take_left' (List.length_map _)]
  simp

/-- After acceptable signers, the error tells of the first of the further signatures that fails. The induction is on
these: an accepted one joins the signers before it. -/
theorem Acceptable.firstFault {signers : List Address} (h : Acceptable isMember signers)
    (herror : signersFrom hash isMember signers.length signers.getLast? signatures = .error e) :
    FirstFault isMember (signers.map .ok ++ signatures.map (recoverSigner hash)) e := by
  induction signatures generalizing signers with
  | nil => cases herror
  | cons signature rest ih =>
    have hbefore : ∀ earlier < signers.length, ∀ e', ¬ SignatureFault isMember
        (signers.map .ok ++ (signature :: rest).map (recoverSigner hash)) earlier e' :=
      fun earlier hlt e' => h.not_signatureFault _ hlt
    have hget : (signers.map Except.ok ++ (signature :: rest).map (recoverSigner hash))[signers.length]?
        = some (recoverSigner hash signature) := by
      rw [List.getElem?_append_right (by simp)]
      simp
    unfold signersFrom at herror
    split at herror
    · rename_i hrec
      cases herror
      exact ⟨signers.length, .unrecovered (hrec ▸ hget), hbefore⟩
    · rename_i signer hrec
      split at herror
      · -- the last signer shows that this one is not above all before it
        rename_i hbelow
        cases herror
        obtain ⟨last, hlast, hle⟩ := (Option.any_eq_true _ _).1 hbelow
        exact ⟨signers.length, .misplaced (hrec ▸ hget)
          (mem_take_recovered.2 (List.mem_of_getLast? hlast)) (of_decide_eq_true hle), hbefore⟩
      · rename_i hlast
        have habove := h.forall_lt hlast
        split at herror
        · rename_i hmember
          have hrest : signersFrom hash isMember (signers ++ [signer]).length (signers ++ [signer]).getLast? rest
              = .error e := by
            rw [List.length_append, List.length_singleton, List.getLast?_concat]
            cases hnext : signersFrom hash isMember (signers.length + 1) (some signer) rest with
            | error e' =>
              rw [hnext] at herror
              exact herror
            | ok signers' =>
              rw [hnext] at herror
              cases herror
          have hfault := ih (h.concat habove hmember) hrest
          rwa [List.map_append, List.append_assoc, List.map_singleton, List.singleton_append, ← hrec,
            ← List.map_cons] at hfault
        · rename_i hmember
          cases herror
          exact ⟨signers.length, .outsider (hrec ▸ hget) (fun a ha => habove a (mem_take_recovered.1 ha))
            (Bool.not_eq_true _ ▸ hmember), hbefore⟩

end

/-! ### Verdicts -/

theorem forall₂_recovers {hash : Hash} {signatures : List Signature} {signers : List Address} :
    List.Forall₂ (fun g a => recoverSigner hash g = .ok a) signatures signers
      ↔ signatures.map (recoverSigner hash) = signers.map .ok := by
  rw [← List.forall₂_eq_eq_eq, List.forall₂_map_left_iff, List.forall₂_map_right_iff]

/-- For every hash, list of signatures and test of membership: the list is accepted just if every signature recovers,
the signers ascend strictly and each of them passes the test, and the answer is the signers in order. Otherwise the
error is that of the first signature that fails; of what can be wrong with that one, it tells of the recovery before
the order, and of the order before the membership. -/
theorem verifySignatures_tells_first_fault (hash : Hash) (isMember : Address → Bool) (signatures : List Signature) :
    let recovered := signatures.map (recoverSigner hash)
    (∀ signers, verifySignatures hash isMember signatures = .ok signers ↔
      recovered = signers.map .ok ∧ signers.Pairwise (·.toNat < ·.toNat) ∧ ∀ a ∈ signers, isMember a) ∧
    ∀ e, verifySignatures hash isMember signatures = .error e ↔ FirstFault isMember recovered e := by
  intro recovered
  have hok : ∀ signers, verifySignatures hash isMember signatures = .ok signers ↔
      recovered = signers.map .ok ∧ signers.Pairwise (·.toNat < ·.toNat) ∧ ∀ a ∈ signers, isMember a := by
    intro signers
    rw [verifySignatures, signersFrom_eq_ok, forall₂_recovers, Option.toList_none, List.nil_append]
  have hnone : Acceptable isMember [] := ⟨.nil, by simp⟩
  have herror : ∀ e, verifySignatures hash isMember signatures = .error e → FirstFault isMember recovered e :=
    fun e => hnone.firstFault
  refine ⟨hok, fun e => ⟨herror e, fun hfirst => ?_⟩⟩
  cases hverdict : verifySignatures hash isMember signatures with
  | error e' => rw [(herror e' hverdict).unique hfirst]
  | ok signers =>
    -- of an accepted list no signature fails
    obtain ⟨hrec, hascending, hmembers⟩ := (hok signers).1 hverdict
    obtain ⟨index, hfault, -⟩ := hfirst
    have hindex := hfault.lt_length
    rw [hrec, List.length_map] at hindex
    rw [hrec, ← List.append_nil (signers.map _)] at hfault
    exact absurd hfault (Acceptable.not_signatureFault ⟨hascending, hmembers⟩ [] hindex)

end PriceOracle
