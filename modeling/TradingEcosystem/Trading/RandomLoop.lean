import TradingEcosystem.Exchange.MatchingEngine

namespace Trading

open Common Exchange

/-- The variables of the loop that a `RANDOM` client runs in `main`. Each turn of it sends a new
order and then the cancel of one of the orders sent so far. -/
structure RandomLoop where
  clientId : ℕ
  tickerBasePrice : ℕ → ℤ
  orderId : ℕ
  clientRequestsVec : List MEClientRequest
  cancelsNext : Bool

namespace RandomLoop

def turns : ℕ := 10000

def basePrice (draw : ℕ) : ℤ := draw % 100 + 100

def new (clientId : ℕ) (draws : ℕ → ℕ) : RandomLoop where
  clientId := clientId
  tickerBasePrice := fun t => basePrice (draws t)
  orderId := clientId * 1000
  clientRequestsVec := []
  cancelsNext := false

def newRequest (l : RandomLoop) (rand : ℕ → ℕ) : MEClientRequest :=
  let tickerId := rand 0 % meMaxTickers
  { type := .new
    clientId := l.clientId
    tickerId := tickerId
    orderId := l.orderId
    side := if rand 3 % 2 = 0 then .sell else .buy
    price := l.tickerBasePrice tickerId + (rand 1 % 10 : ℕ) + 1
    qty := 1 + rand 2 % 100 + 1 }

/-- The half of a turn that comes next, under the numbers that `rand` returns in it. -/
def step (l : RandomLoop) (rand : ℕ → ℕ) : Outcome (RandomLoop × List MEClientRequest) :=
  if l.cancelsNext then
    match l.clientRequestsVec[rand 0 % l.clientRequestsVec.length]? with
    | none => .error .outOfRange
    | some req => pure ({ l with cancelsNext := false }, [{ req with type := .cancel }])
  else if l.clientRequestsVec.length < turns then
    let req := l.newRequest rand
    pure ({ l with
      orderId := l.orderId + 1
      clientRequestsVec := l.clientRequestsVec ++ [req]
      cancelsNext := true }, [req])
  else pure (l, [])

end RandomLoop

structure RandomLoop.Ok (c : ℕ) (l : RandomLoop) : Prop where
  client : l.clientId = c
  base : ∀ t, 100 ≤ l.tickerBasePrice t ∧ l.tickerBasePrice t < 200
  orderId : l.orderId = c * 1000 + l.clientRequestsVec.length
  length_le : l.clientRequestsVec.length ≤ turns
  nonempty : l.cancelsNext = true → l.clientRequestsVec ≠ []
  sent : ∀ req ∈ l.clientRequestsVec, req.type = .new ∧ req.Admissible ∧ req.clientId = c

section Loop

variable {c : ℕ} {l : RandomLoop}

theorem RandomLoop.ok_new (c : ℕ) (draws : ℕ → ℕ) : (RandomLoop.new c draws).Ok c where
  client := rfl
  base := fun t => by
    rw [RandomLoop.new]
    dsimp only [basePrice]
    omega
  orderId := (Nat.add_zero _).symm
  length_le := Nat.zero_le _
  nonempty := by simp [RandomLoop.new]
  sent := by simp [RandomLoop.new]

theorem cancel_admissible {req : MEClientRequest} (hnew : req.type = .new) (h : req.Admissible) :
    MEClientRequest.Admissible { req with type := .cancel } := by
  obtain ⟨ht, -, hcall⟩ := h
  rw [MEClientRequest.call, if_pos hnew] at hcall
  exact ⟨ht, .inr rfl, hcall.2.2.1⟩

theorem RandomLoop.Ok.newRequest (h : l.Ok c) (hc : c < meMaxNumClients)
    (hlt : l.clientRequestsVec.length < turns) (rand : ℕ → ℕ) :
    (l.newRequest rand).Admissible := by
  have hprice := h.base (rand 0 % meMaxTickers)
  have hmax : meMaxNumClients = 256 ∧ meMaxOrderIds = 1048576 ∧ meMaxPriceLevels = 131072 ∧
      turns = 10000 := ⟨rfl, rfl, rfl, rfl⟩
  refine ⟨Nat.mod_lt _ (by decide), .inl rfl, ?_⟩
  change NewOrder.Admissible _
  refine ⟨?_, ?_, ⟨?_, ?_⟩, ?_⟩
  · dsimp only [RandomLoop.newRequest]
    split_ifs
    · exact .inr rfl
    · exact .inl rfl
  · dsimp only [PriceInRange, RandomLoop.newRequest]
    omega
  · rw [RandomLoop.newRequest, h.client]
    exact hc
  · dsimp only [RandomLoop.newRequest]
    rw [h.orderId]
    omega
  · dsimp only [RandomLoop.newRequest]
    omega

theorem RandomLoop.Ok.step (h : l.Ok c) (hc : c < meMaxNumClients) (rand : ℕ → ℕ) :
    ∃ l' reqs, l.step rand = .ok (l', reqs) ∧ l'.Ok c ∧
      ∀ req ∈ reqs, req.Admissible ∧ req.clientId = c := by
  unfold RandomLoop.step
  split_ifs with hnext hlt
  · have hlen : rand 0 % l.clientRequestsVec.length < l.clientRequestsVec.length :=
      Nat.mod_lt _ (List.length_pos_iff.mpr (h.nonempty hnext))
    obtain ⟨hnew, hadm, hclient⟩ := h.sent _ (List.getElem_mem hlen)
    rw [List.getElem?_eq_getElem hlen]
    refine ⟨_, _, rfl, ⟨h.client, h.base, h.orderId, h.length_le, by simp, h.sent⟩, ?_⟩
    intro req hreq
    rw [List.mem_singleton.mp hreq]
    exact ⟨cancel_admissible hnew hadm, hclient⟩
  · have hadm := h.newRequest hc hlt rand
    refine ⟨_, _, rfl, ⟨h.client, h.base, ?_, ?_, by simp, ?_⟩, ?_⟩
    · rw [List.length_append, List.length_singleton, h.orderId, Nat.add_assoc]
    · rw [List.length_append]
      exact hlt
    · intro req hreq
      rcases List.mem_append.mp hreq with hreq | hreq
      · exact h.sent req hreq
      · rw [List.mem_singleton.mp hreq]
        exact ⟨rfl, hadm, h.client⟩
    · intro req hreq
      rw [List.mem_singleton.mp hreq]
      exact ⟨hadm, h.client⟩
  · exact ⟨l, [], rfl, h, by simp⟩

end Loop

end Trading
