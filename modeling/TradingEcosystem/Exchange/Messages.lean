import TradingEcosystem.Common.Types

namespace Exchange

open Common

inductive ClientRequestType where
  | invalid
  | new
  | cancel
  | unknown (raw : UInt8)
  deriving DecidableEq, Repr

structure MEClientRequest where
  type : ClientRequestType
  clientId : ℕ
  tickerId : ℕ
  orderId : ℕ
  side : Side
  price : ℤ
  qty : ℕ
  deriving DecidableEq, Repr

inductive ClientResponseType where
  | invalid
  | accepted
  | canceled
  | filled
  | cancelRejected
  deriving DecidableEq, Repr

structure MEClientResponse where
  type : ClientResponseType
  clientId : ℕ
  tickerId : ℕ
  clientOrderId : ℕ
  marketOrderId : ℕ
  side : Side
  price : ℤ
  execQty : ℕ
  leavesQty : ℕ
  deriving DecidableEq, Repr

structure OMClientResponse where
  seqNum : ℕ
  meClientResponse : MEClientResponse
  deriving DecidableEq, Repr

inductive MarketUpdateType where
  | invalid
  | clear
  | add
  | modify
  | cancel
  | trade
  | snapshotStart
  | snapshotEnd
  | unknown (raw : UInt8)
  deriving DecidableEq, Repr

structure MEMarketUpdate where
  type : MarketUpdateType
  orderId : ℕ
  tickerId : ℕ
  side : Side
  price : ℤ
  qty : ℕ
  priority : ℕ
  deriving DecidableEq, Repr

def MEMarketUpdate.default : MEMarketUpdate where
  type := .invalid
  orderId := orderIdInvalid
  tickerId := tickerIdInvalid
  side := .invalid
  price := priceInvalid
  qty := qtyInvalid
  priority := priorityInvalid

structure MDPMarketUpdate where
  seqNum : ℕ
  meMarketUpdate : MEMarketUpdate
  deriving DecidableEq, Repr

inductive Event where
  | response (r : MEClientResponse)
  | update (u : MEMarketUpdate)
  deriving DecidableEq, Repr

def Event.marketUpdate? : Event → Option MEMarketUpdate
  | .response _ => none
  | .update u => some u

def Event.clientResponse? : Event → Option MEClientResponse
  | .response r => some r
  | .update _ => none

def marketUpdates (events : List Event) : List MEMarketUpdate :=
  events.filterMap Event.marketUpdate?

def clientResponses (events : List Event) : List MEClientResponse :=
  events.filterMap Event.clientResponse?

@[simp] theorem marketUpdates_nil : marketUpdates [] = [] := rfl

@[simp] theorem marketUpdates_append (xs ys : List Event) :
    marketUpdates (xs ++ ys) = marketUpdates xs ++ marketUpdates ys := by
  simp [marketUpdates]

@[simp] theorem marketUpdates_update (u : MEMarketUpdate) (xs : List Event) :
    marketUpdates (.update u :: xs) = u :: marketUpdates xs := rfl

@[simp] theorem marketUpdates_response (r : MEClientResponse) (xs : List Event) :
    marketUpdates (.response r :: xs) = marketUpdates xs := rfl

@[simp] theorem clientResponses_nil : clientResponses [] = [] := rfl

@[simp] theorem clientResponses_append (xs ys : List Event) :
    clientResponses (xs ++ ys) = clientResponses xs ++ clientResponses ys := by
  simp [clientResponses]

@[simp] theorem clientResponses_update (u : MEMarketUpdate) (xs : List Event) :
    clientResponses (.update u :: xs) = clientResponses xs := rfl

@[simp] theorem clientResponses_response (r : MEClientResponse) (xs : List Event) :
    clientResponses (.response r :: xs) = r :: clientResponses xs := rfl

end Exchange
