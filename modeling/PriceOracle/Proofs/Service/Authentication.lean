import PriceOracle.Proofs.Json.Widened
import PriceOracle.Proofs.Table
import PriceOracle.Service.Basic
/-! Who a request acts for. A request with named parameters acts for a caller only if it carries that
caller's signature and a nonce above all that were accepted from the same caller before. Parameters given
by position pass unchecked, because only named ones are looked at, and yet methods read a caller from
them. -/
namespace PriceOracle

/-! ### What a request carries -/

namespace Request

/-- A caller signed the method, the nonce and the parameters besides the credentials. -/
def SignedBy (r : Request) (caller : Address) (nonce : Nat) : Prop :=
  ∃ ms j signature, r.params = .obj ms ∧ Json.find "signature" ms = some j ∧
    Signature.ofJson? j = some signature ∧ (Json.find "nonce" ms).bind Word.ofJson? = some nonce ∧
    recoverSigner (requestHash r.method nonce (Credentials.strip ms)) signature = .ok caller

def named? (r : Request) : Option (Address × Nat) :=
  match r.params with
  | .obj ms =>
    match (Json.find "caller" ms).bind Address.ofJson?, (Json.find "nonce" ms).bind Word.ofJson? with
    | some caller, some nonce => some (caller, nonce)
    | _, _ => none
  | _ => none

end Request

theorem Credentials.ofMembers_eq_ok {ms : List (String × Json)} {c : Credentials}
    (h : ofMembers ms = .ok c) :
    ∃ j, Json.find "signature" ms = some j ∧ Signature.ofJson? j = some c.signature ∧
      (Json.find "nonce" ms).bind Word.ofJson? = some c.nonce := by
  unfold ofMembers at h
  split at h
  · cases h
  · rename_i j hj
    split at h
    · cases h
    · rename_i signature hs
      split at h
      · cases h
      · rename_i nonce hn
        cases h
        exact ⟨j, hj, hs, hn⟩

theorem Credentials.check_eq_ok {c : Credentials} {caller : Address} {method : String} {params : Json}
    (h : c.check caller method params = .ok ()) :
    recoverSigner (requestHash method c.nonce params) c.signature = .ok caller := by
  unfold check at h
  split at h
  · cases h
  · rename_i signer hs
    split at h
    · rename_i heq
      rw [hs, heq]
    · cases h

theorem Nonces.accept_eq_ok {nonces nonces' : Nonces} {caller : Address} {nonce : Nat}
    (h : nonces.accept caller nonce = .ok nonces') :
    nonces' = nonces.insert caller nonce ∧ ∀ last, nonces.get? caller = some last → last < nonce := by
  unfold accept at h
  split at h
  · rename_i last hlast
    split at h
    · cases h
    · cases h
      refine ⟨rfl, fun last' h' => ?_⟩
      rw [hlast, Option.some.injEq] at h'
      omega
  · rename_i hnone
    cases h
    refine ⟨rfl, fun last h' => ?_⟩
    rw [hnone] at h'
    cases h'

/-- What authentication lets pass: parameters that name no caller, and those whose credentials are
the caller's and new. -/
theorem authenticate_cases {nonces nonces' : Nonces} {method : String} {params params' : Json}
    (h : authenticate nonces method params = .ok (params', nonces')) :
    (params' = params ∧ nonces' = nonces ∧ ∀ ms, params = .obj ms → Json.find "caller" ms = none) ∨
      ∃ ms caller c, params = .obj ms ∧ (Json.find "caller" ms).bind Address.ofJson? = some caller ∧
        Credentials.ofMembers ms = .ok c ∧ c.check caller method (Credentials.strip ms) = .ok () ∧
        nonces.accept caller c.nonce = .ok nonces' ∧ params' = Credentials.strip ms := by
  unfold authenticate at h
  split at h
  · rename_i ms
    split at h
    · rename_i hnone
      cases h
      refine .inl ⟨rfl, rfl, fun ms' heq => ?_⟩
      cases heq
      exact hnone
    · rename_i j hj
      split at h
      · cases h
      · rename_i caller hcaller
        split at h
        · cases h
        · rename_i c hc
          split at h
          · cases h
          · rename_i hcheck
            split at h
            · cases h
            · rename_i nonces'' haccept
              cases h
              exact .inr ⟨ms, caller, c, rfl, by rw [hj]; exact hcaller, hc, hcheck, haccept, rfl⟩
  · rename_i hobj
    cases h
    exact .inl ⟨rfl, rfl, fun ms heq => absurd heq (hobj ms)⟩

/-- What a check lets pass, and the nonces it leaves: parameters that name no caller as they are, and
named ones without their credentials, if these are the caller's and new. -/
inductive Request.Passed (nonces : Nonces) (r : Request) : Json → Nonces → Prop where
  | unnamed (h : r.params.get? "caller" = none) (hnamed : r.named? = none) : Passed nonces r r.params nonces
  | signed {ms : List (String × Json)} {caller : Address} {nonce : Nat} (hobj : r.params = .obj ms)
      (hcaller : (Json.find "caller" ms).bind Address.ofJson? = some caller)
      (hnamed : r.named? = some (caller, nonce)) (hsigned : r.SignedBy caller nonce)
      (habove : ∀ last, nonces.get? caller = some last → last < nonce) :
      Passed nonces r (Credentials.strip ms) (nonces.insert caller nonce)

theorem passed_of_authenticate {nonces nonces' : Nonces} {r : Request} {params : Json}
    (h : authenticate nonces r.method r.params = .ok (params, nonces')) : r.Passed nonces params nonces' := by
  rcases authenticate_cases h with
    ⟨rfl, rfl, hnone⟩ | ⟨ms, caller, c, hobj, hcaller, hc, hcheck, haccept, rfl⟩
  · have hget : r.params.get? "caller" = none := by
      cases hp : r.params with
      | obj ms => exact hnone ms hp
      | _ => rfl
    have hnamed : r.named? = none := by
      unfold Request.named?
      split
      · rename_i ms hp
        rw [hnone ms hp]
        rfl
      · rfl
    exact .unnamed hget hnamed
  · obtain ⟨j, hj, hsig, hnonce⟩ := Credentials.ofMembers_eq_ok hc
    obtain ⟨rfl, habove⟩ := Nonces.accept_eq_ok haccept
    have hnamed : r.named? = some (caller, c.nonce) := by
      simp only [Request.named?, hobj, hcaller, hnonce]
    exact .signed hobj hcaller hnamed
      ⟨ms, j, c.signature, hobj, hj, hsig, hnonce, Credentials.check_eq_ok hcheck⟩ habove

/-! ### What a method reads -/

theorem Credentials.find_caller_strip (ms : List (String × Json)) :
    Json.find "caller" (ms.filter (·.1 ∉ names)) = Json.find "caller" ms :=
  Json.find_filter (fun _ => by simp [names]) ms

/-- The caller of a command is the field of that name, by its name or in the first place. -/
theorem Command.find_caller {method : String} {read : Json → Option Command} {params : Json}
    {caller : Address} {action : Action} (hr : Command.reader? method = some read)
    (h : read params = some (.act caller action)) :
    ∃ names f, Json.Fields.of? ("caller" :: names) params = some f ∧
      f.get "caller" Address.ofJson? = some caller := by
  unfold Command.reader? at hr
  split at hr
  · rename_i reader _
    cases hr
    simp only [Option.bind_eq_bind, Option.bind_eq_some_iff] at h
    obtain ⟨f, hf, caller', hcaller, action', -, hact⟩ := h
    cases hact
    exact ⟨reader.names, f, hf, hcaller⟩
  · rename_i hnone
    simp only [Option.map_eq_some_iff] at hr
    obtain ⟨reader, -, rfl⟩ := hr
    simp only [Option.bind_eq_bind, Option.bind_eq_some_iff] at h
    obtain ⟨f, -, question, -, hask⟩ := h
    cases hask

namespace Task

/-- The command that a task has the network carry out. -/
def command? : Task → Option Command
  | .command c => some c
  | .status => some (.ask .summary)
  | .encodeMessage _ | .shutdown => none

theorem find_caller_of_ofMethod {method : String} {params : Json} {task : Task} {caller : Address}
    {action : Action} (h : ofMethod method params = .ok task)
    (hc : task.command? = some (.act caller action)) :
    ∃ names f, Json.Fields.of? ("caller" :: names) params = some f ∧
      f.get "caller" Address.ofJson? = some caller := by
  unfold ofMethod at h
  split at h
  · cases h
    cases hc
  · cases h
    cases hc
  · cases h
    cases hc
  · split at h
    · cases h
      cases hc
    · cases h
  · split at h
    · cases h
    · rename_i read hread
      split at h
      · rename_i c hcommand
        cases h
        cases hc
        exact Command.find_caller hread hcommand
      · cases h

end Task

/-! ### Requests in turn -/

namespace Service

/-- The command that a request has the network carry out, if it gets that far. -/
def command? (s : Service) (r : Request) : Option Command :=
  if r.version ≠ "2.0" then none
  else
    match authenticate s.nonces r.method r.params with
    | .error _ => none
    | .ok (params, _) =>
      match Task.ofMethod r.method params with
      | .error _ => none
      | .ok task => task.command?

/-- The caller and the nonce that authentication accepts from a request. -/
def accepted? (s : Service) (r : Request) : Option (Address × Nat) :=
  if r.version ≠ "2.0" then none
  else
    match authenticate s.nonces r.method r.params with
    | .error _ => none
    | .ok _ => r.named?

/-- The service after requests, each carried out at its time. -/
def serve (s : Service) : List (Nat × Request) → Service
  | [] => s
  | (now, r) :: rest => (s.dispatch now r).2.serve rest

def accepted (s : Service) : List (Nat × Request) → List (Address × Nat)
  | [] => []
  | (now, r) :: rest => (s.accepted? r).toList ++ (s.dispatch now r).2.accepted rest

/-- The network after a command and after its events were taken. -/
def networkAfter (s : Service) (now : Nat) : Option Command → Network
  | none => s.network
  | some c =>
    if s.running then (c.run s.network (s.clock.blockAt now)).state.takeEvents.2 else s.network

theorem network_perform (s : Service) (now : Nat) (task : Task) :
    (s.perform now task).2.network = s.networkAfter now task.command? := by
  cases task with
  | command c =>
    simp only [perform, run, Task.command?, networkAfter]
    split <;> rfl
  | encodeMessage message => rfl
  | status =>
    simp only [perform, run, Task.command?, networkAfter]
    split <;> rfl
  | shutdown => rfl

theorem nonces_perform (s : Service) (now : Nat) (task : Task) :
    (s.perform now task).2.nonces = s.nonces := by
  cases task with
  | command c =>
    simp only [perform, run]
    split <;> rfl
  | encodeMessage message => rfl
  | status =>
    simp only [perform, run]
    split <;> rfl
  | shutdown => rfl

/-- A request changes the network by its command only. -/
theorem network_dispatch (s : Service) (now : Nat) (r : Request) :
    (s.dispatch now r).2.network = s.networkAfter now (s.command? r) := by
  unfold dispatch command?
  split
  · rfl
  · cases h : authenticate s.nonces r.method r.params with
    | error e => rfl
    | ok x =>
      dsimp only
      cases ht : Task.ofMethod r.method x.1 with
      | error e => rfl
      | ok task =>
        dsimp only
        rw [network_perform]
        rfl

/-- A nonce that is accepted is above the last one of its caller, who signed the request. -/
theorem signedBy_of_accepted? {s : Service} {r : Request} {caller : Address} {nonce : Nat}
    (h : s.accepted? r = some (caller, nonce)) :
    r.SignedBy caller nonce ∧ ∀ last, s.nonces.get? caller = some last → last < nonce := by
  unfold accepted? at h
  split at h
  · cases h
  · split at h
    · cases h
    · rename_i x hauth
      obtain ⟨params, nonces⟩ := x
      cases passed_of_authenticate hauth with
      | unnamed _ hnone =>
        rw [hnone] at h
        cases h
      | signed _ _ hnamed hsigned habove =>
        rw [hnamed] at h
        cases h
        exact ⟨hsigned, habove⟩

theorem nonces_dispatch (s : Service) (now : Nat) (r : Request) :
    (s.dispatch now r).2.nonces
      = (s.accepted? r).elim s.nonces fun x => s.nonces.insert x.1 x.2 := by
  unfold dispatch accepted?
  split
  · rfl
  · split
    · rename_i h
      rw [h]
      rfl
    · rename_i params nonces hauth
      have hnonces : nonces = (r.named?).elim s.nonces fun x => s.nonces.insert x.1 x.2 := by
        cases passed_of_authenticate hauth with
        | unnamed _ hnone => rw [hnone, Option.elim_none]
        | signed _ _ hnamed => rw [hnamed, Option.elim_some]
      rw [hauth]
      simp only
      split
      · exact hnonces
      · rw [nonces_perform]
        exact hnonces

/-- The last nonce of a caller is at least every nonce that was accepted from it. -/
def Remembers (nonces : Nonces) (log : List (Address × Nat)) : Prop :=
  ∀ caller nonce, (caller, nonce) ∈ log → ∃ last, nonces.get? caller = some last ∧ nonce ≤ last

theorem remembers_dispatch {s : Service} {log : List (Address × Nat)} (h : Remembers s.nonces log)
    (now : Nat) (r : Request) :
    Remembers (s.dispatch now r).2.nonces (log ++ (s.accepted? r).toList) := by
  rw [nonces_dispatch]
  cases ha : s.accepted? r with
  | none => simpa using h
  | some x =>
    obtain ⟨caller, nonce⟩ := x
    have habove := (signedBy_of_accepted? ha).2
    intro caller' nonce' hmem
    simp only [Option.elim_some, Table.get?_insert]
    rcases List.mem_append.1 hmem with hold | hnew
    · obtain ⟨last, hlast, hle⟩ := h caller' nonce' hold
      by_cases heq : caller' = caller
      · subst heq
        have := habove last hlast
        exact ⟨nonce, by simp, by omega⟩
      · exact ⟨last, by simpa [heq] using hlast, hle⟩
    · simp only [Option.toList_some, List.mem_singleton, Prod.mk.injEq] at hnew
      obtain ⟨rfl, rfl⟩ := hnew
      exact ⟨nonce', by simp, Nat.le_refl _⟩

theorem remembers_serve (requests : List (Nat × Request)) : ∀ {s : Service} {log : List (Address × Nat)},
    Remembers s.nonces log → Remembers (s.serve requests).nonces (log ++ s.accepted requests) := by
  induction requests with
  | nil =>
    intro s log h
    simpa [serve, accepted] using h
  | cons x rest ih =>
    intro s log h
    obtain ⟨now, r⟩ := x
    rw [serve, accepted, ← List.append_assoc]
    exact ih (remembers_dispatch h now r)

/-- Named parameters of a request that acts for a caller carry what is accepted from that caller. -/
theorem accepted?_of_command? {s : Service} {r : Request} {caller : Address} {action : Action}
    {ms : List (String × Json)} (hobj : r.params = .obj ms)
    (h : s.command? r = some (.act caller action)) : ∃ nonce, s.accepted? r = some (caller, nonce) := by
  unfold command? at h
  unfold accepted?
  split at h
  · cases h
  · rename_i hversion
    rw [if_neg hversion]
    split at h
    · cases h
    · rename_i params nonces hauth
      rw [hauth]
      split at h
      · cases h
      · rename_i task htask
        obtain ⟨names, f, hf, hget⟩ := Task.find_caller_of_ofMethod htask h
        unfold Json.Fields.get at hget
        cases passed_of_authenticate hauth with
        | unnamed hnone =>
          -- without a caller there is none to read
          rw [hobj] at hf hnone
          cases hf
          rw [show Json.find "caller" ms = none from hnone] at hget
          cases hget
        | @signed ms' _ nonce hobj' hcaller hnamed =>
          obtain rfl : ms = ms' := Json.obj.inj (hobj.symm.trans hobj')
          cases hf
          simp only [Credentials.find_caller_strip] at hget
          rw [hcaller] at hget
          cases hget
          exact ⟨nonce, hnamed⟩

/-- Whatever requests came before, a request changes the network only by the command it is read as; and
one that acts for a caller carries that caller's signature and a nonce above all that were accepted from
the caller exactly if its parameters are named. -/
theorem signedBy_iff_named (s : Service) (past : List (Nat × Request)) (r : Request) :
    (∀ now, ((s.serve past).dispatch now r).2.network
      = (s.serve past).networkAfter now ((s.serve past).command? r)) ∧
    ∀ caller action, (s.serve past).command? r = some (.act caller action) →
      ((∃ nonce, r.SignedBy caller nonce ∧
          ∀ earlier, (caller, earlier) ∈ s.accepted past → earlier < nonce)
        ↔ ∃ ms, r.params = .obj ms) := by
  refine ⟨fun now => network_dispatch _ now r, fun caller action h => ⟨?_, ?_⟩⟩
  · rintro ⟨nonce, ⟨ms, j, signature, hobj, -⟩, -⟩
    exact ⟨ms, hobj⟩
  · rintro ⟨ms, hobj⟩
    obtain ⟨nonce, ha⟩ := accepted?_of_command? hobj h
    obtain ⟨hsigned, habove⟩ := signedBy_of_accepted? ha
    refine ⟨nonce, hsigned, fun earlier hmem => ?_⟩
    have hempty : Remembers s.nonces [] := fun _ _ hin => by cases hin
    obtain ⟨last, hlast, hle⟩ := remembers_serve past hempty caller earlier hmem
    have := habove last hlast
    omega

/-- Anybody lets the pool pull a holder's collateral, by giving the holder in the first place. -/
theorem signedBy_iff_named_of_approve :
    let holder := Address.ofNat 3
    let n : Network := ⟨.empty, default, .empty, ⟨0, 1⟩, .governor .zero, []⟩
    let s : Service := ⟨⟨0, 1⟩, "", n, true, .new 1, .empty, false⟩
    let r : Request := ⟨"2.0", .null, "approve",
      .arr [.str "0x0000000000000000000000000000000000000003", .str "0x64"]⟩
    (s.serve []).command? r = some (.act holder (.approve 100)) ∧
      ¬ (∃ nonce, r.SignedBy holder nonce ∧
        ∀ earlier, (holder, earlier) ∈ s.accepted [] → earlier < nonce) ∧
      (s.dispatch 0 r).2.network.ledger.allowance holder s.network.staking.account = 100 := by
  intro holder n s r
  have hc : (s.serve []).command? r = some (.act holder (.approve 100)) := by decide +kernel
  obtain ⟨hnet, hsigned⟩ := signedBy_iff_named s [] r
  refine ⟨hc, fun h => ?_, ?_⟩
  · obtain ⟨ms, hobj⟩ := (hsigned holder _ hc).1 h
    cases hobj
  · have hnet := hnet 0
    rw [hc] at hnet
    rw [show s.dispatch 0 r = (s.serve []).dispatch 0 r from rfl, hnet]
    decide +kernel

/-- A withdrawal in a holder's name that the holder never signed reaches the network. -/
theorem withdraw_unsigned :
    let holder := Address.ofNat 3
    let n : Network := ⟨.empty, default, .empty, ⟨0, 1⟩, .governor .zero, []⟩
    let s : Service := ⟨⟨0, 1⟩, "", n, true, .new 1, .empty, false⟩
    let r : Request := ⟨"2.0", .null, "withdraw",
      .arr [.str "0x0000000000000000000000000000000000000003", .str "0x28"]⟩
    s.command? r = some (.act holder (.withdraw 40)) ∧ ¬ ∃ nonce, r.SignedBy holder nonce := by
  intro holder n s r
  refine ⟨by decide +kernel, ?_⟩
  rintro ⟨nonce, ms, j, signature, hobj, -⟩
  cases hobj

end Service

end PriceOracle
