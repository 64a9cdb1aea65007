import PriceOracle.Proofs.Crypto.Keccak
import PriceOracle.Proofs.Service.Authentication
/-! Nonces over a run of requests. A check reads only the last nonce of the caller that a request names,
and moves it up if the request passes. So the nonces accepted from one caller ascend, whoever else makes
requests in between, and what was accepted once is refused from then on. -/
namespace PriceOracle

namespace Request

def caller? (r : Request) : Option Address := (r.params.get? "caller").bind Address.ofJson?

/-- The parameters besides the signature. -/
def content (r : Request) : Json :=
  match r.params with
  | .obj ms => .obj (Json.without "signature" ms)
  | params => params

theorem caller?_of_named? {r : Request} {caller : Address} {nonce : Nat}
    (h : r.named? = some (caller, nonce)) : r.caller? = some caller := by
  unfold named? at h
  split at h
  · rename_i ms hobj
    split at h
    · rename_i hcaller hnonce
      cases h
      rw [caller?, hobj]
      exact hcaller
    · cases h
  · cases h

/-- A signature names nobody. -/
theorem named?_content (r : Request) : { r with params := r.content }.named? = r.named? := by
  unfold content named?
  cases r.params with
  | obj ms =>
    have hcaller : Json.find "caller" (Json.without "signature" ms) = Json.find "caller" ms :=
      Json.find_filter (fun _ => by simp) ms
    have hnonce : Json.find "nonce" (Json.without "signature" ms) = Json.find "nonce" ms :=
      Json.find_filter (fun _ => by simp) ms
    simp only [hcaller, hnonce]
  | _ => rfl

theorem named?_congr {r r' : Request} (h : r'.content = r.content) : r'.named? = r.named? := by
  rw [← named?_content r', ← named?_content r, h]
  rfl

end Request

theorem Credentials.strip_eq (ms : List (String × Json)) :
    strip ms = .obj (Json.without "nonce" (Json.without "signature" ms)) := by
  simp only [strip, Json.without, List.filter_filter, names, List.mem_cons, List.not_mem_nil, or_false,
    not_or, Bool.decide_and, ne_eq]
  congr 2
  funext m
  exact Bool.and_comm _ _

namespace Nonces

/-! ### Runs -/

/-- What a check answers: the parameters that the method sees, or why there are none. -/
def verdict (nonces : Nonces) (r : Request) : Except CallError Json :=
  (authenticate nonces r.method r.params).map (·.1)

/-- The nonces that a check leaves. A request that is refused changes none. -/
def after (nonces : Nonces) (r : Request) : Nonces :=
  match authenticate nonces r.method r.params with
  | .error _ => nonces
  | .ok (_, nonces) => nonces

def run (nonces : Nonces) (requests : List Request) : Nonces := requests.foldl after nonces

/-- The caller and the nonce that a check accepts. -/
def accepts? (nonces : Nonces) (r : Request) : Option (Address × Nat) :=
  match nonces.verdict r with
  | .error _ => none
  | .ok _ => r.named?

/-- The nonce that a check accepts from a caller. -/
def acceptsFrom? (caller : Address) (nonces : Nonces) (r : Request) : Option Nat :=
  ((nonces.accepts? r).filter (·.1 = caller)).map (·.2)

/-- The nonces that a run accepts from a caller, in order. -/
def acceptedFrom (caller : Address) : Nonces → List Request → List Nat
  | _, [] => []
  | nonces, r :: rest =>
    (acceptsFrom? caller nonces r).toList ++ acceptedFrom caller (nonces.after r) rest

variable {nonces other : Nonces} {r : Request} {caller : Address} {nonce : Nat}

/-! ### What a check does -/

theorem passed_of_verdict {params : Json} (h : nonces.verdict r = .ok params) :
    r.Passed nonces params (nonces.after r) := by
  unfold verdict at h
  unfold after
  cases hauth : authenticate nonces r.method r.params with
  | error e =>
    rw [hauth] at h
    cases h
  | ok x =>
    rw [hauth] at h
    cases h
    exact passed_of_authenticate hauth

theorem after_of_error {e : CallError} (h : nonces.verdict r = .error e) : nonces.after r = nonces := by
  unfold verdict at h
  unfold after
  cases hauth : authenticate nonces r.method r.params with
  | error e => rfl
  | ok x =>
    rw [hauth] at h
    cases h

/-- Nothing is checked about parameters that name no caller. -/
theorem authenticate_of_unnamed (h : r.params.get? "caller" = none) (nonces : Nonces) :
    authenticate nonces r.method r.params = .ok (r.params, nonces) := by
  unfold authenticate
  cases hparams : r.params with
  | obj ms =>
    have hfind : Json.find "caller" ms = none := by
      rw [hparams] at h
      exact h
    simp only [hfind]
  | _ => rfl

/-- A caller's signature and a nonce that is next are all it takes. -/
theorem authenticate_of_signed {method : String} {ms : List (String × Json)} {j : Json} {c : Credentials}
    {left : Nonces} (hj : Json.find "caller" ms = some j) (hcaller : Address.ofJson? j = some caller)
    (hc : Credentials.ofMembers ms = .ok c)
    (hsigner : recoverSigner (requestHash method c.nonce (Credentials.strip ms)) c.signature = .ok caller)
    (hnonce : nonces.accept caller c.nonce = .ok left) :
    authenticate nonces method (.obj ms) = .ok (Credentials.strip ms, left) := by
  have hcheck : c.check caller method (Credentials.strip ms) = .ok () := by
    rw [Credentials.check, hsigner]
    exact if_pos rfl
  simp only [authenticate, hj, hcaller, hc, hcheck, hnonce]

/-- An accepted nonce is the only change. -/
theorem after_eq (nonces : Nonces) (r : Request) :
    nonces.after r = (nonces.accepts? r).elim nonces fun x => nonces.insert x.1 x.2 := by
  unfold accepts?
  cases h : nonces.verdict r with
  | error e => exact after_of_error h
  | ok params =>
    have hpassed := passed_of_verdict h
    generalize nonces.after r = left at hpassed
    dsimp only
    cases hpassed with
    | unnamed _ hnone => rw [hnone, Option.elim_none]
    | signed _ _ hnamed => rw [hnamed, Option.elim_some]

theorem lt_of_accepts? (h : nonces.accepts? r = some (caller, nonce)) :
    r.named? = some (caller, nonce) ∧ ∀ last, nonces.get? caller = some last → last < nonce := by
  unfold accepts? at h
  cases hv : nonces.verdict r with
  | error e =>
    rw [hv] at h
    cases h
  | ok params =>
    rw [hv] at h
    refine ⟨h, ?_⟩
    have hpassed := passed_of_verdict hv
    generalize nonces.after r = left at hpassed
    cases hpassed with
    | unnamed _ hnone =>
      rw [hnone] at h
      cases h
    | signed _ _ hnamed _ habove =>
      rw [hnamed] at h
      cases h
      exact habove

theorem get?_after_of_accepts? (h : nonces.accepts? r = some (caller, nonce)) (other : Address) :
    (nonces.after r).get? other = if other = caller then some nonce else nonces.get? other := by
  rw [after_eq, h, Option.elim_some, Table.get?_insert]

/-- A check moves nobody's last nonce but that of the caller its request names. -/
theorem get?_after_of_ne (h : r.caller? ≠ some caller) :
    (nonces.after r).get? caller = nonces.get? caller := by
  cases ha : nonces.accepts? r with
  | none => rw [after_eq, ha, Option.elim_none]
  | some x =>
    have hnamed := Request.caller?_of_named? (lt_of_accepts? ha).1
    have hne : caller ≠ x.1 := by
      rintro rfl
      exact h hnamed
    rw [get?_after_of_accepts? ha, if_neg hne]

theorem le_after {last : Nat} (h : nonces.get? caller = some last) (r : Request) :
    ∃ last', (nonces.after r).get? caller = some last' ∧ last ≤ last' := by
  cases ha : nonces.accepts? r with
  | none => exact ⟨last, by rw [after_eq, ha, Option.elim_none, h], Nat.le_refl _⟩
  | some x =>
    rw [get?_after_of_accepts? ha]
    split
    · rename_i heq
      have hlt := (lt_of_accepts? ha).2 last (heq ▸ h)
      exact ⟨x.2, rfl, Nat.le_of_lt hlt⟩
    · exact ⟨last, h, Nat.le_refl _⟩

theorem le_run (requests : List Request) : ∀ {nonces : Nonces} {last : Nat},
    nonces.get? caller = some last →
    ∃ last', (nonces.run requests).get? caller = some last' ∧ last ≤ last' := by
  induction requests with
  | nil =>
    intro nonces last h
    exact ⟨last, h, Nat.le_refl _⟩
  | cons r rest ih =>
    intro nonces last h
    obtain ⟨mid, hmid, hle⟩ := le_after h r
    obtain ⟨last', hlast, hle'⟩ := ih hmid
    exact ⟨last', hlast, Nat.le_trans hle hle'⟩

/-! ### Ascent -/

/-- A check accepts no nonce from a caller and keeps its last one, or one that is above its last one and
comes in its place. -/
theorem acceptsFrom?_cases (caller : Address) (nonces : Nonces) (r : Request) :
    (acceptsFrom? caller nonces r = none ∧ (nonces.after r).get? caller = nonces.get? caller) ∨
      ∃ nonce, acceptsFrom? caller nonces r = some nonce ∧ (nonces.after r).get? caller = some nonce ∧
        ∀ last, nonces.get? caller = some last → last < nonce := by
  unfold acceptsFrom?
  cases ha : nonces.accepts? r with
  | none => exact .inl ⟨rfl, by rw [after_eq, ha, Option.elim_none]⟩
  | some x =>
    rw [get?_after_of_accepts? ha]
    by_cases heq : x.1 = caller
    · subst heq
      exact .inr ⟨x.2, by simp, if_pos rfl, (lt_of_accepts? ha).2⟩
    · exact .inl ⟨by simp [heq], if_neg (Ne.symm heq)⟩

theorem ascending_acceptedFrom (requests : List Request) : ∀ nonces : Nonces,
    (acceptedFrom caller nonces requests).Pairwise (· < ·) ∧
      ∀ nonce ∈ acceptedFrom caller nonces requests,
        ∀ last, nonces.get? caller = some last → last < nonce := by
  induction requests with
  | nil =>
    intro nonces
    exact ⟨.nil, by simp [acceptedFrom]⟩
  | cons r rest ih =>
    intro nonces
    obtain ⟨hascending, habove⟩ := ih (nonces.after r)
    rw [acceptedFrom]
    rcases acceptsFrom?_cases caller nonces r with ⟨hnone, hkept⟩ | ⟨nonce, hsome, hlast, hnew⟩
    · rw [hkept] at habove
      rw [hnone, Option.toList_none, List.nil_append]
      exact ⟨hascending, habove⟩
    · have hrest : ∀ later ∈ acceptedFrom caller (nonces.after r) rest, nonce < later :=
        fun later hmem => habove later hmem nonce hlast
      rw [hsome, Option.toList_some, List.singleton_append]
      refine ⟨.cons hrest hascending, fun later hmem last h => ?_⟩
      have hlt := hnew last h
      rcases List.mem_cons.1 hmem with rfl | hmem
      · exact hlt
      · exact Nat.lt_trans hlt (hrest later hmem)

/-- A nonce that is not above one that was accepted is refused, under any method and with any signature. -/
theorem refused_after {later : List Request} {r' : Request} {earlier : Nat}
    (ha : nonces.accepts? r = some (caller, nonce)) (hnamed : r'.named? = some (caller, earlier))
    (hle : earlier ≤ nonce) : ∃ e, ((nonces.after r).run later).verdict r' = .error e := by
  cases hv : ((nonces.after r).run later).verdict r' with
  | error e => exact ⟨e, rfl⟩
  | ok params =>
    exfalso
    have haccepts : ((nonces.after r).run later).accepts? r' = some (caller, earlier) := by
      rw [accepts?, hv]
      exact hnamed
    have hset : (nonces.after r).get? caller = some nonce := by
      rw [get?_after_of_accepts? ha, if_pos rfl]
    obtain ⟨last, hlast, hmoved⟩ := le_run later hset
    have hlt := (lt_of_accepts? haccepts).2 last hlast
    lia

/-! ### Other callers -/

/-- A check reads the last nonce of the caller that its request names, and no other. -/
theorem verdict_congr (h : ∀ caller, r.caller? = some caller → nonces.get? caller = other.get? caller) :
    nonces.verdict r = other.verdict r := by
  unfold verdict authenticate
  cases hparams : r.params with
  | obj ms =>
    dsimp only
    cases hj : Json.find "caller" ms with
    | none => rfl
    | some j =>
      dsimp only
      cases hcaller : Address.ofJson? j with
      | none => rfl
      | some caller =>
        have hnamed : r.caller? = some caller := by
          rw [Request.caller?, hparams]
          exact (congrArg (·.bind Address.ofJson?) hj).trans hcaller
        simp only [accept, h caller hnamed]
        cases Credentials.ofMembers ms with
        | error e => rfl
        | ok c =>
          dsimp only
          cases c.check caller r.method (Credentials.strip ms) with
          | error e => rfl
          | ok _ =>
            cases other.get? caller with
            | none => rfl
            | some last =>
              by_cases hle : c.nonce ≤ last
              · simp only [if_pos hle]
              · simp only [if_neg hle]
                rfl
  | _ => rfl

/-- Requests of others leave what a caller's last nonce becomes. -/
theorem get?_run_filter (requests : List Request) : ∀ {nonces other : Nonces},
    nonces.get? caller = other.get? caller →
    (nonces.run requests).get? caller
      = (other.run (requests.filter (·.caller? = some caller))).get? caller := by
  induction requests with
  | nil =>
    intro nonces other h
    exact h
  | cons r rest ih =>
    intro nonces other h
    by_cases hr : r.caller? = some caller
    · have hsame : (nonces.after r).get? caller = (other.after r).get? caller := by
        have hverdict : nonces.verdict r = other.verdict r := verdict_congr fun named hnamed => by
          rw [hr] at hnamed
          cases hnamed
          exact h
        have haccepts : nonces.accepts? r = other.accepts? r := by rw [accepts?, accepts?, hverdict]
        rw [after_eq, after_eq, haccepts]
        cases other.accepts? r with
        | none => exact h
        | some x => rw [Option.elim_some, Option.elim_some, Table.get?_insert, Table.get?_insert, h]
      rw [List.filter_cons_of_pos (by simpa using hr)]
      exact ih hsame
    · rw [List.filter_cons_of_neg (by simpa using hr)]
      exact ih ((get?_after_of_ne hr).trans h)

/-- Requests checked in turn, from any nonces. From each caller the nonces that are accepted ascend, above
its last one. A request that is refused, and one that names no caller, changes nothing; one that is accepted
and names a caller hands on its parameters without the signature and the nonce, and moves that caller's last
nonce alone, to its own. From then on a request with the same parameters, whatever its signature, is
refused, and so is one of that caller with no higher nonce. And the answer to a request is the one it would
get if nobody but the caller it names had made requests before. -/
theorem nonce_discipline (start : Nonces) (past : List Request) :
    let nonces := start.run past
    (∀ caller, (acceptedFrom caller start past).Pairwise (· < ·) ∧
      ∀ nonce ∈ acceptedFrom caller start past,
        ∀ last, start.get? caller = some last → last < nonce) ∧
    ∀ r : Request,
      (∀ e, nonces.verdict r = .error e → nonces.after r = nonces) ∧
      (r.params.get? "caller" = none → nonces.verdict r = .ok r.params ∧ nonces.after r = nonces) ∧
      (∀ params, nonces.verdict r = .ok params → r.params.get? "caller" ≠ none →
        ∃ ms caller nonce, r.params = .obj ms ∧ r.named? = some (caller, nonce) ∧
          params = .obj (Json.without "nonce" (Json.without "signature" ms)) ∧
          (∀ other,
            (nonces.after r).get? other = if other = caller then some nonce else nonces.get? other) ∧
          ∀ between r',
            r'.content = r.content ∨ (∃ earlier, r'.named? = some (caller, earlier) ∧ earlier ≤ nonce) →
            ∃ e, ((nonces.after r).run between).verdict r' = .error e) ∧
      ∀ caller, r.caller? = some caller →
        nonces.verdict r = (start.run (past.filter (·.caller? = some caller))).verdict r := by
  intro nonces
  refine ⟨fun caller => ascending_acceptedFrom past start, fun r =>
    ⟨fun e => after_of_error, fun hnone => ?_, fun params hv hsome => ?_, fun caller hcaller => ?_⟩⟩
  · have hauth := authenticate_of_unnamed hnone nonces
    exact ⟨by rw [verdict, hauth]; rfl, by rw [after, hauth]⟩
  · have hpassed := passed_of_verdict hv
    generalize hleft : nonces.after r = left at hpassed
    cases hpassed with
    | unnamed hnone => exact absurd hnone hsome
    | @signed ms caller nonce hobj _ hnamed =>
      have haccepts : nonces.accepts? r = some (caller, nonce) := by
        rw [accepts?, hv]
        exact hnamed
      refine ⟨ms, caller, nonce, hobj, hnamed, Credentials.strip_eq ms, fun other => ?_,
        fun between r' hrepeats => ?_⟩
      · rw [Table.get?_insert]
      · rw [← hleft]
        rcases hrepeats with hcontent | ⟨earlier, hearlier, hle⟩
        · exact refused_after haccepts ((Request.named?_congr hcontent).trans hnamed) (Nat.le_refl nonce)
        · exact refused_after haccepts hearlier hle
  · refine verdict_congr fun named hnamed => ?_
    rw [hcaller] at hnamed
    cases hnamed
    exact get?_run_filter past rfl

/-- A holder's deposit with the nonce 5, and its twin: the other signature that passes for the same hash.
Either is accepted first, and the twin is refused after the deposit, a question of nobody's between them. -/
theorem nonce_discipline_of_twin :
    let holder := Address.ofNat 0x4a62316623ad457f02cdc5d997ded67a383ec569
    let deposit (v : Int) (s : String) : Request := ⟨"2.0", .null, "deposit", .obj [
      ("caller", .str "0x4a62316623ad457f02cdc5d997ded67a383ec569"),
      ("amount", .str "0x64"),
      ("nonce", .int 5),
      ("signature", .obj [
        ("v", .int v),
        ("r", .str "0xfee619743cf4d7e45c9b9c66b00e2e2c4a4695d52813c38857fb06a3953f627c"),
        ("s", .str s)])]⟩
    let signed := deposit 27 "0x557d436417453b16ff11c07d22810998dfd8c17d2b9b7ba08348cef1e43b127c"
    let twin := deposit 28 "0xaa82bc9be8bac4e900ee3f82dd7ef665dad61b6983ad249b3c898f9aebfb2ec5"
    let question : Request := ⟨"2.0", .null, "summary", .obj []⟩
    accepts? .empty signed = some (holder, 5) ∧ accepts? .empty twin = some (holder, 5) ∧
      ∃ e, ((Nonces.after .empty signed).run [question]).verdict twin = .error e := by
  intro holder deposit signed twin question
  let rest : Json :=
    .obj [("caller", .str "0x4a62316623ad457f02cdc5d997ded67a383ec569"), ("amount", .str "0x64")]
  have hhash : requestHash "deposit" 5 rest
      = .ofNat 107058709294440729946583863496044568288284550400140735300614130146605884484705 := by
    rw [requestHash, signedMessageHash, keccak256_eq]
    decide +kernel
  have hcaller : Address.ofJson? (.str "0x4a62316623ad457f02cdc5d997ded67a383ec569") = some holder := by
    decide +kernel
  have haccepts (v : Int) (s : String) {ms : List (String × Json)} (g : Signature)
      (hms : (deposit v s).params = .obj ms) (hg : Credentials.ofMembers ms = .ok ⟨g, 5⟩)
      (hnamed : (deposit v s).named? = some (holder, 5))
      (hsigner : recoverSigner (requestHash "deposit" 5 rest) g = .ok holder) :
      accepts? .empty (deposit v s) = some (holder, 5) := by
    cases hms
    have hnonce : accept .empty holder 5 = .ok (Table.insert .empty holder 5) := rfl
    have hauth : authenticate .empty (deposit v s).method (deposit v s).params = .ok (_, _) :=
      authenticate_of_signed rfl hcaller hg hsigner hnonce
    rw [accepts?, verdict, hauth]
    exact hnamed
  have hsigned : accepts? .empty signed = some (holder, 5) := by
    refine haccepts 27 _ ⟨27, .ofNat 0xfee619743cf4d7e45c9b9c66b00e2e2c4a4695d52813c38857fb06a3953f627c,
      .ofNat 0x557d436417453b16ff11c07d22810998dfd8c17d2b9b7ba08348cef1e43b127c⟩ rfl ?_ ?_ ?_
    · decide +kernel
    · decide +kernel
    · rw [hhash]
      simp only [recoverSigner, accountOfKey, keccak256_eq]
      decide +kernel
  have htwin : accepts? .empty twin = some (holder, 5) := by
    refine haccepts 28 _ ⟨28, .ofNat 0xfee619743cf4d7e45c9b9c66b00e2e2c4a4695d52813c38857fb06a3953f627c,
      .ofNat 0xaa82bc9be8bac4e900ee3f82dd7ef665dad61b6983ad249b3c898f9aebfb2ec5⟩ rfl ?_ ?_ ?_
    · decide +kernel
    · decide +kernel
    · rw [hhash]
      simp only [recoverSigner, accountOfKey, keccak256_eq]
      decide +kernel
  obtain ⟨params, hv⟩ : ∃ params, verdict .empty signed = .ok params := by
    cases h : verdict .empty signed with
    | error e =>
      rw [accepts?, h] at hsigned
      cases hsigned
    | ok params => exact ⟨params, rfl⟩
  have hcaller : (signed.params.get? "caller").isSome := by decide +kernel
  have hcontent : twin.content = signed.content := by
    simp [signed, twin, deposit, Request.content, Json.without]
  obtain ⟨ms, caller, nonce, -, -, -, -, hlater⟩ :=
    ((nonce_discipline .empty []).2 signed).2.2.1 params hv (Option.isSome_iff_ne_none.1 hcaller)
  exact ⟨hsigned, htwin, hlater [question] twin (.inl hcontent)⟩

end Nonces

end PriceOracle
