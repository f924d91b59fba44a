import TradingEcosystem.Trading.MarketOrderBook
import TradingEcosystem.Trading.OrderManager

namespace Trading

open Common Exchange

/-- The money part of `PositionInfo`, in exact arithmetic. -/
structure Pnl (K : Type) where
  realPnl : K
  unrealPnl : K
  totalPnl : K
  openVwap : ℕ → K

namespace Pnl

variable {K : Type} [Field K] [LinearOrder K]

/-- `openVwap` is left uninitialised by the source. -/
def new (openVwap : ℕ → K) : Pnl K := ⟨0, 0, 0, openVwap⟩

def markTo (p : Pnl K) (position : ℤ) (price : K) : K :=
  let size : K := |(position : K)|
  if 0 < position then (price - p.openVwap (sideToIndex .buy) / size) * size
  else (p.openVwap (sideToIndex .sell) / size - price) * size

def addOpen (p : Pnl K) (r : MEClientResponse) : Pnl K :=
  let side := sideToIndex r.side
  { p with openVwap := Function.update p.openVwap side (p.openVwap side + r.price * r.execQty) }

def addClose (p : Pnl K) (oldPosition position : ℤ) (r : MEClientResponse) : Pnl K :=
  let side := sideToIndex r.side
  let opp := sideToIndex (if r.side = .buy then .sell else .buy)
  let oppSideVwap := p.openVwap opp / |(oldPosition : K)|
  let openVwap := Function.update p.openVwap opp (oppSideVwap * |(position : K)|)
  { p with
    openVwap :=
      if int32 (position * oldPosition) < 0 then
        Function.update (Function.update openVwap side (r.price * |(position : K)|)) opp 0
      else openVwap
    realPnl := p.realPnl +
      (min (int32 r.execQty) |oldPosition| : ℤ) * (oppSideVwap - r.price) * sideToValue r.side }

def revalue (p : Pnl K) (position : ℤ) (price : ℤ) : Pnl K :=
  let p :=
    if position = 0 then
      { p with
        openVwap := Function.update (Function.update p.openVwap (sideToIndex .buy) 0)
          (sideToIndex .sell) 0
        unrealPnl := 0 }
    else { p with unrealPnl := p.markTo position price }
  { p with totalPnl := p.unrealPnl + p.realPnl }

def rebate (p : Pnl K) (makerRebateBps : K) (r : MEClientResponse) : Pnl K :=
  if makerRebateBps = 0 then p
  else
    let rebate := r.price * r.execQty * makerRebateBps / 10 ^ 4
    { p with realPnl := p.realPnl + rebate, totalPnl := p.totalPnl + rebate }

def addFill (p : Pnl K) (makerRebateBps : K) (oldPosition position : ℤ) (r : MEClientResponse) :
    Pnl K :=
  let p := if 0 ≤ int32 (oldPosition * sideToValue r.side) then p.addOpen r
    else p.addClose oldPosition position r
  (p.revalue position r.price).rebate makerRebateBps r

def updateBBO (p : Pnl K) (position : ℤ) (bbo : BBO) : Pnl K :=
  if position ≠ 0 ∧ bbo.bidPrice ≠ priceInvalid ∧ bbo.askPrice ≠ priceInvalid then
    let unrealPnl := p.markTo position ((bbo.bidPrice + bbo.askPrice) / 2)
    { p with unrealPnl := unrealPnl, totalPnl := unrealPnl + p.realPnl }
  else p

end Pnl

end Trading
