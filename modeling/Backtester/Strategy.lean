import Backtester.TradeLog
import Backtester.Event

/-!
# Strategies and latencies

A strategy is called with a context : the local time and the feed-delayed market view. It
answers with its next state and the commands it issued, in order. A latency model samples the delay
of an order request from the engine's random number generator.
-/

namespace Backtester

open Std

/-- Feed-delayed market state : the last delivered tick of each symbol. -/
structure MarketView where
  lastTradeBySymbol : ExtTreeMap ℕ Tick := ∅

namespace MarketView

/-- The last tick of a symbol that was handed over. -/
def lastTrade (market : MarketView) (symbolId : ℕ) : Option Tick :=
  market.lastTradeBySymbol[symbolId]?

/-- The tick is the last one of its symbol from now on. -/
def onTickDelivery (market : MarketView) (tick : Tick) : MarketView :=
  ⟨market.lastTradeBySymbol.insert tick.symbolId tick⟩

theorem lastTrade_onTickDelivery (market : MarketView) (tick : Tick) (symbolId : ℕ) :
    (market.onTickDelivery tick).lastTrade symbolId =
      if tick.symbolId = symbolId then some tick else market.lastTrade symbolId := by
  simp [lastTrade, onTickDelivery, ExtTreeMap.getElem?_insert]

end MarketView

/-- What a strategy can ask the engine for. -/
inductive Command where
  | submitOrder (order : Order)
  | cancelOrder (orderId : ℕ)
  deriving DecidableEq, Repr

/-- What a strategy sees besides the data of the call. -/
structure Context where
  tsLocal : ℤ
  market : MarketView

/-! ## Strategies -/

/-- A call of the engine to the strategy, with what it hands over. -/
inductive Call where
  | onTick (tick : Tick)
  | onTicks (ticks : List Tick)
  | onOrderUpdate (report : OrderReport)
  | onOrderUpdates (reports : List OrderReport)
  | onFunding (event : FundingEvent)
  deriving DecidableEq, Repr

namespace Call

/-- The ticks a call hands over. -/
def ticks : Call → List Tick
  | onTick tick => [tick]
  | onTicks ticks => ticks
  | _ => []

/-- The reports a call hands over. -/
def reports : Call → List OrderReport
  | onOrderUpdate report => [report]
  | onOrderUpdates reports => reports
  | _ => []

end Call

/-- Call `f` on each element in turn, and collect the commands. -/
def callEach {S ε α : Type} (f : S → α → Except ε (S × List Command)) :
    S → List α → Except ε (S × List Command)
  | s, [] => .ok (s, [])
  | s, a :: l =>
    match f s a with
    | .error err => .error err
    | .ok (s, commands) => (callEach f s l).map fun (s, rest) => (s, commands ++ rest)

/-- A strategy that fails stops the run, so a failed call gives no state. -/
class Strategy (S : Type) where
  Error : Type
  onTick : S → Tick → Context → Except Error (S × List Command)
  onTicks : S → List Tick → Context → Except Error (S × List Command) :=
    fun s ticks ctx => callEach (fun s tick => onTick s tick ctx) s ticks
  onOrderUpdate : S → OrderReport → Context → Except Error (S × List Command)
  onOrderUpdates : S → List OrderReport → Context → Except Error (S × List Command) :=
    fun s reports ctx => callEach (fun s report => onOrderUpdate s report ctx) s reports
  onFunding : S → FundingEvent → Context → Except Error (S × List Command) :=
    fun s _ _ => .ok (s, [])

/-- The method a call runs. -/
def Strategy.answer {S : Type} [Strategy S] (s : S) (call : Call) (ctx : Context) :
    Except (Strategy.Error S) (S × List Command) :=
  match call with
  | .onTick tick => Strategy.onTick s tick ctx
  | .onTicks ticks => Strategy.onTicks s ticks ctx
  | .onOrderUpdate report => Strategy.onOrderUpdate s report ctx
  | .onOrderUpdates reports => Strategy.onOrderUpdates s reports ctx
  | .onFunding event => Strategy.onFunding s event ctx

/-- A strategy that plays a script : each tick and each funding event it sees issues the next
list of commands. -/
structure Scripted where
  script : List (List Command)

instance : Strategy Scripted where
  Error := Empty
  onTick s _ _ := .ok (⟨s.script.tail⟩, s.script.headD [])
  onOrderUpdate s _ _ := .ok (s, [])
  onFunding s _ _ := .ok (⟨s.script.tail⟩, s.script.headD [])

instance : DecidableEq (Strategy.Error Scripted) := inferInstanceAs (DecidableEq Empty)

/-! ## Latencies -/

/-- Generators made from a seed. -/
class SeedableRng (R : Type) where
  makeSmallRng : ℕ → R

/-- How long an order takes to the exchange. -/
class LatencyModel (L R : Type) where
  sampleOrderLatency : L → ℤ → R → ℤ × R

/-- The same latency for every order. -/
structure ConstantLatency where
  orderLatencyNs : ℤ

instance (R : Type) : LatencyModel ConstantLatency R where
  sampleOrderLatency l _ rng := (max l.orderLatencyNs 0, rng)

/-- A model that takes no randomness needs no generator. -/
instance : SeedableRng Unit := ⟨fun _ => ()⟩

end Backtester
