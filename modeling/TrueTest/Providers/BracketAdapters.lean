import Mathlib.Data.List.TakeWhile
import TrueTest.Execution.Accounting
import TrueTest.Exits.Rehydrate

/-!
# Bracket adapters

The adapters that turn an exit intent into orders at the venue (`binance_oco_bracket_adapter.h`,
`binance_futures_bracket_adapter.h`, `bitget_futures_bracket_adapter.h`): what `place` sends, and
what `list_open` makes of the open orders after a restart. The opener's id travels in the client
order id, and everything else has to be in the orders.

Binance spot takes one OCO list that carries the quantity. The two futures adapters send orders that
close whatever the position is: they name no quantity, the venue reports none, and the bracket comes
back with quantity zero. The exit manager arms it and never closes anything with it, so the round
trip (`restored_iff`) is the OCO adapter's alone.

A request is the list of its parameters and a reported order that of its fields; the JSON around
them is left out, and so are the constant parameters. A number is sent with eight decimals.
-/

namespace TrueTest.Brackets

open Machine List ExitManager RecoveredBracket

/-! ## Numbers and client ids -/

/-- The nearest integer, the even one of two. -/
def roundHalfEven (x : ℚ) : ℤ :=
  if x - ⌊x⌋ < 1 / 2 then ⌊x⌋
  else if 1 / 2 < x - ⌊x⌋ then ⌊x⌋ + 1
  else if ⌊x⌋ % 2 = 0 then ⌊x⌋ else ⌊x⌋ + 1

/-- `fmt_double` and what reading its text gives: eight decimals. -/
def fmtDouble (v : ℚ) : ℚ := roundHalfEven (v * 10 ^ 8) / 10 ^ 8

theorem roundHalfEven_intCast (z : ℤ) : roundHalfEven z = z := by
  simp [roundHalfEven]

theorem fmtDouble_eq_self_iff {v : ℚ} : fmtDouble v = v ↔ OnGrid v := by
  constructor
  · intro h
    exact ⟨_, h.symm⟩
  · rintro ⟨z, rfl⟩
    rw [fmtDouble, div_mul_cancel₀ _ (by norm_num), roundHalfEven_intCast]

def upper (s : String) : String := String.ofList (s.toList.map Char.toUpper)

/-- `std::stoull`; `none` where it throws. What follows the digits is not looked at. -/
def stoull (cs : List Char) : Option Nat :=
  let cs := cs.dropWhile Char.isWhitespace
  let digits := (match cs with
    | '+' :: cs => cs
    | '-' :: cs => cs
    | cs => cs).takeWhile Char.isDigit
  let value := Nat.ofDigitChars 10 digits 0
  if digits.isEmpty ∨ 2 ^ 64 ≤ value then none
  else some (if cs.head? = some '-' then (2 ^ 64 - value) % 2 ^ 64 else value)

/-- The opener's id behind one of the platform's marks. -/
def openerOf (mark clientId : String) : Option Nat :=
  if mark.toList.length < clientId.toList.length ∧ mark.toList.isPrefixOf clientId.toList then
    stoull (clientId.toList.drop mark.toList.length)
  else none

theorem isWhitespace_of_isDigit {c : Char} (hc : c.isDigit = true) : c.isWhitespace = false := by
  rw [Bool.eq_false_iff]
  intro hspace
  simp only [Char.isWhitespace, Bool.or_eq_true, decide_eq_true_eq] at hspace
  rcases hspace with ((rfl | rfl) | rfl) | rfl <;> revert hc <;> decide

theorem stoull_toDigits {n : Nat} (hn : n < 2 ^ 64) : stoull (Nat.toDigits 10 n) = some n := by
  have hdigits : ∀ c ∈ Nat.toDigits 10 n, c.isDigit = true := fun c hc =>
    Nat.isDigit_of_mem_toDigits (by decide) (by decide) hc
  have hvalue : Nat.ofDigitChars 10 (Nat.toDigits 10 n) 0 = n :=
    Nat.ofDigitChars_toDigits (by decide) (by decide)
  cases hcs : Nat.toDigits 10 n with
  | nil => exact absurd hcs Nat.toDigits_ne_nil
  | cons c cs =>
    rw [hcs] at hdigits hvalue
    have hc := hdigits c mem_cons_self
    have hplus : c ≠ '+' := by rintro rfl; revert hc; decide
    have hminus : c ≠ '-' := by rintro rfl; revert hc; decide
    have hdrop : (c :: cs).dropWhile Char.isWhitespace = c :: cs := by
      rw [dropWhile_cons, isWhitespace_of_isDigit hc]
      rfl
    have htake : (c :: cs).takeWhile Char.isDigit = c :: cs := takeWhile_eq_self_iff.2 hdigits
    rw [stoull, hdrop]
    simp [hplus, hminus, htake, hvalue]
    exact hn

theorem openerOf_append (mark : String) {n : Nat} (hn : n < 2 ^ 64) :
    openerOf mark (mark ++ toString n) = some n := by
  have hdigits : (toString n).toList = Nat.toDigits 10 n := Nat.toList_repr
  have hpos : 0 < (Nat.toDigits 10 n).length := length_pos_iff.2 Nat.toDigits_ne_nil
  rw [openerOf, String.toList_append, hdigits, if_pos ⟨by simp [hpos], by simp⟩, drop_left]
  exact stoull_toDigits hn

/-! ## Open orders -/

/-- The side of a request to Binance. -/
def sideText : OrderSide → String
  | .sell => "SELL"
  | .buy => "BUY"

/-- The side read from a Binance order. -/
def sideOf (side : String) : OrderSide := if side = "SELL" then .sell else .buy

/-- A row of Binance's open orders. -/
structure OpenOrder where
  orderId : String
  clientOrderId : String
  symbol : String
  side : String
  type : String
  origQty : ℚ
  price : ℚ
  stopPrice : ℚ

/-- A row of Binance's open order lists, with the ids of its orders. -/
structure OpenOrderList where
  orderListId : String
  listClientOrderId : String
  symbol : String
  orders : List String

/-- A row of Bitget's open strategy orders. -/
structure StrategyOrder where
  orderId : String
  clientOid : String
  symbol : String
  side : String
  stopLoss : Option ℚ
  takeProfit : Option ℚ

/-- The ids the venue gives to what it accepted. -/
structure VenueIds where
  sl : String
  tp : String
  /-- The OCO list, or the strategy order. -/
  list : String

def noHandles : BracketHandles := ⟨none, none, none, ""⟩

/-- An id of an answer, if there is one. -/
def given (id : String) : Option String := if id = "" then none else some id

variable (rb : RecoveredBracket)

/-- The entry is taken to lie between the levels. -/
def approximate : RecoveredBracket :=
  match rb.stopLoss, rb.takeProfit with
  | some sl, some tp => { rb with entryPrice := (sl + tp) * (1 / 2) }
  | some sl, none => { rb with entryPrice := sl }
  | none, some tp => { rb with entryPrice := tp }
  | none, none => rb

/-! ## Binance spot: one OCO list -/

structure OcoRequest where
  symbol : String
  side : String
  quantity : ℚ
  price : ℚ
  stopPrice : ℚ
  stopLimitPrice : ℚ
  listClientOrderId : String

/-- The stop leg's limit, a little past its trigger. -/
def stopLimitPriceFor (stopLimitOffsetPct : ℚ) (closeSide : OrderSide) (stop : ℚ) : ℚ :=
  match closeSide with
  | .sell => stop * (1 - stopLimitOffsetPct)
  | .buy => stop * (1 + stopLimitOffsetPct)

/-- An intent without both levels is declined. -/
def ocoRequest (stopLimitOffsetPct : ℚ) (opener : Nat) (intent : ExitIntent) : Option OcoRequest :=
  match intent.stopLoss, intent.takeProfit with
  | some sl, some tp => some {
      symbol := upper intent.symbol
      side := sideText intent.closeSide
      quantity := fmtDouble intent.qty
      price := fmtDouble tp
      stopPrice := fmtDouble sl
      stopLimitPrice := fmtDouble (stopLimitPriceFor stopLimitOffsetPct intent.closeSide sl)
      listClientOrderId := "tt-oco-" ++ toString opener }
  | _, _ => none

/-- `place`; `post` is the venue's answer. -/
def ocoPlace (stopLimitOffsetPct : ℚ) (post : OcoRequest → Option VenueIds) (opener : Nat)
    (intent : ExitIntent) : BracketHandles :=
  match ocoRequest stopLimitOffsetPct opener intent with
  | none => noHandles
  | some req =>
    match post req with
    | none => noHandles
    | some ids => ⟨given ids.sl, given ids.tp,
        given (if ids.list = "" then req.listClientOrderId else ids.list), req.symbol⟩

/-- What an open leg says of its bracket. -/
def withSpotLeg (leg : OpenOrder) : RecoveredBracket :=
  let rb := { rb with qty := leg.origQty, closeSide := sideOf leg.side }
  if "STOP".toList <:+: leg.type.toList then
    { rb with
      stopLoss := some leg.stopPrice
      handles := { rb.handles with slExchangeId := some leg.orderId } }
  else
    { rb with
      takeProfit := some leg.price
      handles := { rb.handles with tpExchangeId := some leg.orderId } }

/-- One list of `list_open`. Only the platform's own lists are taken, and each leg is looked up
among the open orders. -/
def recoverList (orders : List OpenOrder) (list : OpenOrderList) : Option RecoveredBracket :=
  match openerOf "tt-oco-" list.listClientOrderId with
  | none => none
  | some opener =>
    if list.orders.length < 2 then none
    else
      let listId := if list.orderListId = "" then list.listClientOrderId else list.orderListId
      let rb := { blank with
        openerOrderId := opener
        symbol := list.symbol
        handles := ⟨none, none, some listId, list.symbol⟩ }
      some (approximate (list.orders.foldl (fun rb id =>
        match orders.find? fun o => o.orderId = id with
        | none => rb
        | some leg => withSpotLeg rb leg) rb))

def ocoListOpen (lists : List OpenOrderList) (orders : List OpenOrder) : List RecoveredBracket :=
  lists.filterMap (recoverList orders)

/-! ## Binance futures: two orders that close the position -/

/-- `closePosition` is set, so there is no quantity. -/
structure FuturesRequest where
  symbol : String
  side : String
  type : String
  stopPrice : ℚ
  newClientOrderId : String

/-- The futures adapters decline an intent for a part of the position. -/
def wholePosition (intent : ExitIntent) : Bool :=
  ¬ (intent.qtyFraction < 999999 / 1000000 ∨ 1000001 / 1000000 < intent.qtyFraction)

def futuresLeg (intent : ExitIntent) (type mark : String) (trigger : ℚ)
    (opener : Nat) : FuturesRequest where
  symbol := upper intent.symbol
  side := sideText intent.closeSide
  type := type
  stopPrice := fmtDouble trigger
  newClientOrderId := mark ++ toString opener

/-- The stop and the target. -/
def futuresRequests (opener : Nat)
    (intent : ExitIntent) : Option (FuturesRequest × FuturesRequest) :=
  match intent.stopLoss, intent.takeProfit with
  | some sl, some tp =>
    if wholePosition intent then
      some (futuresLeg intent "STOP_MARKET" "tt-fb-sl-" sl opener,
        futuresLeg intent "TAKE_PROFIT_MARKET" "tt-fb-tp-" tp opener)
    else none
  | _, _ => none

/-- `place`: the stop goes first, and is kept if the target is refused. -/
def futuresPlace (post : FuturesRequest → Option String) (opener : Nat) (intent : ExitIntent) :
    BracketHandles :=
  match futuresRequests opener intent with
  | none => noHandles
  | some (sl, tp) =>
    match (post sl).bind given with
    | none => noHandles
    | some slId => ⟨some slId, (post tp).bind given, none, sl.symbol⟩

/-- What either leg says of its bracket. A quantity of zero is not taken. -/
def withFuturesLeg (opener : Nat) (o : OpenOrder) : RecoveredBracket :=
  { rb with
    openerOrderId := opener
    symbol := o.symbol
    closeSide := sideOf o.side
    qty := if 0 < o.origQty then o.origQty else rb.qty
    handles := { rb.handles with symbol := o.symbol } }

/-- One open order of `list_open`, put to its opener. -/
def groupLeg (byOpener : AList fun _ : Nat => RecoveredBracket) (o : OpenOrder) :
    AList fun _ : Nat => RecoveredBracket :=
  let rbOf (opener : Nat) :=
    withFuturesLeg ((byOpener.lookup opener).getD blank) opener o
  match openerOf "tt-fb-sl-" o.clientOrderId with
  | some opener =>
    let rb := rbOf opener
    byOpener.insert opener { rb with
      stopLoss := some o.stopPrice
      handles := { rb.handles with slExchangeId := (given o.orderId).or rb.handles.slExchangeId } }
  | none =>
    match openerOf "tt-fb-tp-" o.clientOrderId with
    | some opener =>
      let rb := rbOf opener
      byOpener.insert opener { rb with
        takeProfit := some o.stopPrice
        handles := { rb.handles with
          tpExchangeId := (given o.orderId).or rb.handles.tpExchangeId } }
    | none => byOpener

def futuresListOpen (order : IterationOrder (Sigma fun _ : Nat => RecoveredBracket))
    (orders : List OpenOrder) : List RecoveredBracket :=
  (order.run (orders.foldl groupLeg ∅).entries).map fun e => approximate e.2

/-! ## Bitget futures: one strategy order -/

structure StrategyRequest where
  symbol : String
  side : String
  stopLoss : ℚ
  takeProfit : ℚ
  clientOid : String

def strategyRequest (opener : Nat) (intent : ExitIntent) : Option StrategyRequest :=
  match intent.stopLoss, intent.takeProfit with
  | some sl, some tp =>
    if wholePosition intent then
      some {
        symbol := upper intent.symbol
        side := match intent.closeSide with
          | .sell => "sell"
          | .buy => "buy"
        stopLoss := fmtDouble sl
        takeProfit := fmtDouble tp
        clientOid := "tt-fb-" ++ toString opener }
    else none
  | _, _ => none

/-- `place`: one id stands for both legs. -/
def strategyPlace (post : StrategyRequest → Option String) (opener : Nat) (intent : ExitIntent) :
    BracketHandles :=
  match strategyRequest opener intent with
  | none => noHandles
  | some req =>
    match (post req).bind given with
    | none => noHandles
    | some id => ⟨some id, some id, some id, req.symbol⟩

/-- One strategy order of `list_open`; no field of it is a quantity. -/
def recoverStrategy (o : StrategyOrder) : Option RecoveredBracket :=
  match openerOf "tt-fb-" o.clientOid with
  | none => none
  | some opener => some (approximate { blank with
      openerOrderId := opener
      symbol := o.symbol
      closeSide := if o.side = "sell" ∨ o.side = "SELL" then .sell else .buy
      stopLoss := o.stopLoss
      takeProfit := o.takeProfit
      handles := ⟨given o.orderId, given o.orderId, given o.orderId, o.symbol⟩ })

def strategyListOpen (orders : List StrategyOrder) : List RecoveredBracket :=
  orders.filterMap recoverStrategy

/-! ## The venue -/

inductive Adapter
  | binanceOco (stopLimitOffsetPct : ℚ)
  | binanceFutures
  | bitgetFutures

/-- A bracket that was placed, with the ids the venue gave it. -/
structure Placement where
  opener : Nat
  intent : ExitIntent
  ids : VenueIds
  /-- The order in which an OCO list names its legs. -/
  stopFirst : Bool

/-- The handles that `place` returned. -/
def Adapter.place (a : Adapter) (b : Placement) : BracketHandles :=
  match a with
  | binanceOco offset => ocoPlace offset (fun _ => some b.ids) b.opener b.intent
  | binanceFutures =>
    futuresPlace (fun req => some (if req.type = "STOP_MARKET" then b.ids.sl else b.ids.tp))
      b.opener b.intent
  | bitgetFutures => strategyPlace (fun _ => some b.ids.list) b.opener b.intent

def ocoLists (offset : ℚ) (b : Placement) : List OpenOrderList :=
  (ocoRequest offset b.opener b.intent).toList.map fun req =>
    ⟨b.ids.list, req.listClientOrderId, req.symbol,
      if b.stopFirst then [b.ids.sl, b.ids.tp] else [b.ids.tp, b.ids.sl]⟩

/-- The two legs of an OCO list; their own client ids are the venue's. -/
def ocoOrders (offset : ℚ) (b : Placement) : List OpenOrder :=
  (ocoRequest offset b.opener b.intent).toList.flatMap fun req =>
    [⟨b.ids.sl, "", req.symbol, req.side, "STOP_LOSS_LIMIT", req.quantity, req.stopLimitPrice,
      req.stopPrice⟩,
      ⟨b.ids.tp, "", req.symbol, req.side, "LIMIT_MAKER", req.quantity, req.price, 0⟩]

/-- An order that closes the position is reported with quantity zero. -/
def FuturesRequest.resting (req : FuturesRequest) (id : String) : OpenOrder :=
  ⟨id, req.newClientOrderId, req.symbol, req.side, req.type, 0, 0, req.stopPrice⟩

def futuresOrders (b : Placement) : List OpenOrder :=
  (futuresRequests b.opener b.intent).toList.flatMap fun req =>
    [req.1.resting b.ids.sl, req.2.resting b.ids.tp]

def strategyOrders (b : Placement) : List StrategyOrder :=
  (strategyRequest b.opener b.intent).toList.map fun req =>
    ⟨b.ids.list, req.clientOid, req.symbol, req.side, some req.stopLoss, some req.takeProfit⟩

/-- What the venue answers to `list_open`. -/
inductive Report
  | oco (lists : List OpenOrderList) (orders : List OpenOrder)
  | futures (orders : List OpenOrder)
  | strategy (orders : List StrategyOrder)

def Report.listOpen (order : IterationOrder (Sigma fun _ : Nat => RecoveredBracket)) :
    Report → List RecoveredBracket
  | oco lists orders => ocoListOpen lists orders
  | futures orders => futuresListOpen order orders
  | strategy orders => strategyListOpen orders

/-- All orders of the brackets are open, with the fields they were placed with, in any order. -/
inductive Reports : Adapter → List Placement → Report → Prop
  | oco {offset bs lists orders} (hlists : lists.Perm (bs.flatMap (ocoLists offset)))
      (horders : orders.Perm (bs.flatMap (ocoOrders offset))) :
      Reports (.binanceOco offset) bs (.oco lists orders)
  | futures {bs orders} (horders : orders.Perm (bs.flatMap futuresOrders)) :
      Reports .binanceFutures bs (.futures orders)
  | strategy {bs orders} (horders : orders.Perm (bs.flatMap strategyOrders)) :
      Reports .bitgetFutures bs (.strategy orders)

/-- The ids of a bracket's orders. -/
def Adapter.orderIds (a : Adapter) (b : Placement) : List String :=
  match a with
  | bitgetFutures => [b.ids.list]
  | _ => [b.ids.sl, b.ids.tp]

/-- Brackets that the adapter has placed in full: one for an opener, each for a position, under ids
of their own. -/
structure Adapter.Placed (a : Adapter) (bs : List Placement) : Prop where
  openers : (bs.map Placement.opener).Nodup
  opener : ∀ b ∈ bs, b.opener ≠ 0 ∧ b.opener < 2 ^ 64
  qty : ∀ b ∈ bs, 0 < b.intent.qty
  taken : ∀ b ∈ bs, (a.place b).empty = false
  orderIds : (bs.flatMap a.orderIds).Nodup
  orderId : ∀ b ∈ bs, ∀ id ∈ a.orderIds b, id ≠ ""

/-! ## What comes back -/

/-- A bracket as an OCO list brings it back. -/
def ocoRecovered (offset : ℚ) (b : Placement) : RecoveredBracket where
  openerOrderId := b.opener
  strategyName := ""
  symbol := upper b.intent.symbol
  closeSide := b.intent.closeSide
  qty := fmtDouble b.intent.qty
  entryPrice := (fmtDouble (b.intent.stopLoss.getD 0) + fmtDouble (b.intent.takeProfit.getD 0))
    * (1 / 2)
  stopLoss := b.intent.stopLoss.map fmtDouble
  takeProfit := b.intent.takeProfit.map fmtDouble
  handles := (Adapter.binanceOco offset).place b

theorem sideOf_sideText (side : OrderSide) : sideOf (sideText side) = side := by
  cases side <;> rfl

/-- A bracket that was taken has both levels. -/
theorem levels_of_taken {offset : ℚ} {b : Placement}
    (h : ((Adapter.binanceOco offset).place b).empty = false) :
    ∃ sl tp, b.intent.stopLoss = some sl ∧ b.intent.takeProfit = some tp := by
  rw [Adapter.place, ocoPlace, ocoRequest] at h
  cases hsl : b.intent.stopLoss with
  | none =>
    rw [hsl] at h
    cases h
  | some sl =>
    cases htp : b.intent.takeProfit with
    | none =>
      rw [hsl, htp] at h
      cases h
    | some tp => exact ⟨sl, tp, rfl, rfl⟩

variable {orders : List OpenOrder}

/-- The row of an id, where no two rows share one. -/
theorem find?_orderId (hids : (orders.map OpenOrder.orderId).Nodup) {o : OpenOrder}
    (ho : o ∈ orders) : (orders.find? fun x => x.orderId = o.orderId) = some o := by
  cases hfind : orders.find? fun x => x.orderId = o.orderId with
  | none => exact absurd (decide_eq_true rfl) (find?_eq_none.1 hfind o ho)
  | some x =>
    have hid : x.orderId = o.orderId := by simpa using find?_some hfind
    rw [inj_on_of_nodup_map hids (mem_of_find?_eq_some hfind) ho hid]

section Oco

variable {offset : ℚ} {bs : List Placement} {b : Placement} {orders : List OpenOrder}

theorem stop_infix_stopLossLimit : "STOP".toList <:+: "STOP_LOSS_LIMIT".toList := by decide

theorem stop_not_infix_limitMaker : ¬ "STOP".toList <:+: "LIMIT_MAKER".toList := by decide

/-- A list with its two legs, in either order. -/
theorem recoverList_of_legs {list : OpenOrderList} {opener : Nat} {sl tp : OpenOrder}
    (hopener : openerOf "tt-oco-" list.listClientOrderId = some opener)
    (hids : (orders.map OpenOrder.orderId).Nodup) (hsl : sl ∈ orders) (htp : tp ∈ orders)
    (horders : list.orders = [sl.orderId, tp.orderId] ∨ list.orders = [tp.orderId, sl.orderId])
    (hstop : "STOP".toList <:+: sl.type.toList) (hlimit : ¬ "STOP".toList <:+: tp.type.toList)
    (hqty : tp.origQty = sl.origQty) (hside : tp.side = sl.side) :
    recoverList orders list = some {
      openerOrderId := opener
      strategyName := ""
      symbol := list.symbol
      closeSide := sideOf sl.side
      qty := sl.origQty
      entryPrice := (sl.stopPrice + tp.price) * (1 / 2)
      stopLoss := some sl.stopPrice
      takeProfit := some tp.price
      handles := ⟨some sl.orderId, some tp.orderId,
        some (if list.orderListId = "" then list.listClientOrderId else list.orderListId),
        list.symbol⟩ } := by
  rw [recoverList, hopener]
  rcases horders with horders | horders <;> rw [horders]
  all_goals
    simp only [length_cons, length_nil, foldl_cons, foldl_nil, find?_orderId hids hsl,
      find?_orderId hids htp, withSpotLeg, if_pos hstop, if_neg hlimit, hqty, hside]
    rfl

/-- `list_open` reads back what `place` sent, to eight decimals and in capitals. -/
theorem recoverList_ocoLists (hopener : b.opener < 2 ^ 64)
    (htaken : ((Adapter.binanceOco offset).place b).empty = false)
    (hsl : b.ids.sl ≠ "") (htp : b.ids.tp ≠ "") (hids : (orders.map OpenOrder.orderId).Nodup)
    (hopen : ∀ o ∈ ocoOrders offset b, o ∈ orders) :
    (ocoLists offset b).filterMap (recoverList orders) = [ocoRecovered offset b] := by
  obtain ⟨sl, tp, hstop, htarget⟩ := levels_of_taken htaken
  rw [ocoOrders, ocoRequest, hstop, htarget] at hopen
  simp only [Option.toList_some, flatMap_cons, flatMap_nil, append_nil, forall_mem_cons] at hopen
  have hlist : (if b.ids.list = "" then "tt-oco-" ++ toString b.opener else b.ids.list) ≠ "" := by
    split_ifs with h
    · intro hnil
      simpa using congrArg String.toList hnil
    · exact h
  have hhandles : (Adapter.binanceOco offset).place b = ⟨some b.ids.sl, some b.ids.tp,
      some (if b.ids.list = "" then "tt-oco-" ++ toString b.opener else b.ids.list),
      upper b.intent.symbol⟩ := by
    rw [Adapter.place, ocoPlace, ocoRequest, hstop, htarget]
    simp only [given, if_neg hsl, if_neg htp, if_neg hlist]
  have hrow : recoverList orders ⟨b.ids.list, "tt-oco-" ++ toString b.opener, upper b.intent.symbol,
      if b.stopFirst then [b.ids.sl, b.ids.tp] else [b.ids.tp, b.ids.sl]⟩ = _ :=
    recoverList_of_legs (openerOf_append _ hopener) hids hopen.1 hopen.2.1
      (by cases b.stopFirst <;> simp) stop_infix_stopLossLimit stop_not_infix_limitMaker rfl rfl
  rw [ocoLists, ocoRequest, hstop, htarget, ocoRecovered, hhandles, hstop, htarget]
  rw [sideOf_sideText] at hrow
  exact filterMap_cons_some hrow

/-- The brackets come back, in some order. -/
theorem ocoListOpen_perm {lists : List OpenOrderList}
    (hplaced : (Adapter.binanceOco offset).Placed bs)
    (hlists : lists.Perm (bs.flatMap (ocoLists offset)))
    (horders : orders.Perm (bs.flatMap (ocoOrders offset))) :
    (ocoListOpen lists orders).Perm (bs.map (ocoRecovered offset)) := by
  have hids : (orders.map OpenOrder.orderId).Nodup := by
    rw [(horders.map _).nodup_iff, map_flatMap]
    have hlegs : ∀ b ∈ bs, (ocoOrders offset b).map OpenOrder.orderId =
        (Adapter.binanceOco offset).orderIds b := by
      intro b hb
      obtain ⟨sl, tp, hstop, htarget⟩ := levels_of_taken (hplaced.taken b hb)
      rw [ocoOrders, ocoRequest, hstop, htarget]
      rfl
    rw [flatMap_congr hlegs]
    exact hplaced.orderIds
  have hrows :
      ∀ b ∈ bs, (ocoLists offset b).filterMap (recoverList orders) = [ocoRecovered offset b] := by
    intro b hb
    refine recoverList_ocoLists (hplaced.opener b hb).2 (hplaced.taken b hb)
      (hplaced.orderId b hb _ (by simp [Adapter.orderIds]))
      (hplaced.orderId b hb _ (by simp [Adapter.orderIds])) hids fun o ho => ?_
    exact horders.mem_iff.2 (mem_flatMap.2 ⟨b, hb, ho⟩)
  refine (hlists.filterMap _).trans (Perm.of_eq ?_)
  rw [filterMap_flatMap, flatMap_congr hrows, ← map_eq_flatMap]

end Oco

@[simp] theorem approximate_qty : (approximate rb).qty = rb.qty := by
  rw [approximate]
  split <;> rfl

theorem origQty_futuresOrders {bs : List Placement}
    (horders : orders.Perm (bs.flatMap futuresOrders)) : ∀ o ∈ orders, o.origQty = 0 := by
  intro o ho
  obtain ⟨b, -, ho⟩ := mem_flatMap.1 (horders.mem_iff.1 ho)
  obtain ⟨req, -, ho⟩ := mem_flatMap.1 ho
  rcases mem_pair.1 ho with rfl | rfl <;> rfl

/-- A bracket of a close-position order comes back without a quantity. -/
theorem futuresListOpen_qty (h : ∀ o ∈ orders, o.origQty = 0)
    (order : IterationOrder (Sigma fun _ : Nat => RecoveredBracket)) :
    ∀ rb ∈ futuresListOpen order orders, rb.qty = 0 := by
  have hleg : ∀ (byOpener : AList fun _ : Nat => RecoveredBracket) (o : OpenOrder), o.origQty = 0 →
      (∀ id rb, byOpener.lookup id = some rb → rb.qty = 0) →
      ∀ id rb, (groupLeg byOpener o).lookup id = some rb → rb.qty = 0 := by
    intro byOpener o ho hzero
    have hold :
        ∀ opener, (withFuturesLeg ((byOpener.lookup opener).getD .blank) opener o).qty = 0 := by
      intro opener
      rw [withFuturesLeg, ho]
      cases hlookup : byOpener.lookup opener with
      | none => rfl
      | some rb => exact hzero opener rb hlookup
    rw [groupLeg]
    split
    · exact AList.forall_lookup_insert (hold _) hzero
    · split
      · exact AList.forall_lookup_insert (hold _) hzero
      · exact hzero
  have hfold : ∀ id rb, (orders.foldl groupLeg ∅).lookup id = some rb → rb.qty = 0 :=
    foldlRecOn (motive := fun byOpener => ∀ id rb, AList.lookup id byOpener = some rb → rb.qty = 0)
      _ _ (fun id rb hlookup => by cases hlookup)
      fun byOpener hzero o ho => hleg byOpener o (h o ho) hzero
  intro rb hrb
  obtain ⟨e, he, rfl⟩ := mem_map.1 hrb
  rw [approximate_qty]
  exact hfold e.1 e.2 (AList.mem_lookup_iff.2 ((order.perm _).mem_iff.1 he))

/-- Neither does one of a strategy order. -/
theorem strategyListOpen_qty (orders : List StrategyOrder) :
    ∀ rb ∈ strategyListOpen orders, rb.qty = 0 := by
  intro rb hrb
  obtain ⟨o, -, ho⟩ := mem_filterMap.1 hrb
  rw [recoverStrategy] at ho
  split at ho
  · cases ho
  · rw [← Option.some.inj ho, approximate_qty]
    rfl

/-! ## The round trip -/

/-- The manager has the bracket as it was before the restart, and a price through the stop closes
all of it. -/
structure Restored (a : Adapter) (m : ExitManager) (b : Placement) : Prop where
  armed : ∃ ai, (b.opener, ai) ∈ m.armed ∧ ai.intent.openerOrderId = b.opener ∧
    ai.intent.symbol = b.intent.symbol ∧ ai.intent.closeSide = b.intent.closeSide ∧
    ai.intent.qty = b.intent.qty ∧ ai.intent.stopLoss = b.intent.stopLoss ∧
    ai.intent.takeProfit = b.intent.takeProfit
  handles : m.handles.lookup b.opener = some (a.place b)
  closes : ∀ stop ∈ b.intent.stopLoss, ∀ px ts order, 0 < px → b.intent.closeSide.through stop px →
    ∃ o ∈ (m.onPrice b.intent.symbol px ts order).1, o.openerOrderId = b.opener ∧
      o.symbol = b.intent.symbol ∧ o.side = b.intent.closeSide ∧ o.quantity = b.intent.qty

/-- The orders say all of the bracket: they carry a quantity, the symbol is in capitals, and eight
decimals are enough for the numbers. -/
structure Carries (a : Adapter) (b : Placement) : Prop where
  oco : ∃ offset, a = .binanceOco offset
  symbol : upper b.intent.symbol = b.intent.symbol
  qty : OnGrid b.intent.qty
  stopLoss : ∀ sl ∈ b.intent.stopLoss, OnGrid sl
  takeProfit : ∀ tp ∈ b.intent.takeProfit, OnGrid tp

theorem map_fmtDouble_eq_self_iff {v : Option ℚ} : v.map fmtDouble = v ↔ ∀ x ∈ v, OnGrid x := by
  cases v with
  | none => simp
  | some x => simp [fmtDouble_eq_self_iff]

section RoundTrip

variable {a : Adapter} {bs : List Placement} {b : Placement} {now : Int}

section

variable {offset : ℚ} {rbs : List RecoveredBracket}
  (hplaced : (Adapter.binanceOco offset).Placed bs)
  (hrbs : rbs.Perm (bs.map (ocoRecovered offset))) (hb : b ∈ bs)
include hplaced hrbs hb

theorem carries_of_restored (h : Restored (.binanceOco offset) (restart now rbs) b) :
    Carries (.binanceOco offset) b := by
  obtain ⟨ai, hmem, -, hsymbol, -, hqty, hstop, htarget⟩ := h.armed
  obtain ⟨rb, hrb, heq⟩ := mem_armed_restart hmem
  obtain ⟨b', hb', rfl⟩ := mem_map.1 (hrbs.mem_iff.1 hrb)
  obtain ⟨hopener, rfl⟩ := Prod.mk.inj heq
  obtain rfl := inj_on_of_nodup_map hplaced.openers hb hb' hopener
  exact ⟨⟨offset, rfl⟩, hsymbol, fmtDouble_eq_self_iff.1 hqty, map_fmtDouble_eq_self_iff.1 hstop,
    map_fmtDouble_eq_self_iff.1 htarget⟩

theorem restored_of_carries (h : Carries (.binanceOco offset) b) :
    Restored (.binanceOco offset) (restart now rbs) b := by
  have hopeners : (rbs.map openerOrderId).Nodup := by
    rw [(hrbs.map _).nodup_iff, map_map]
    exact hplaced.openers
  have hvalid : ∀ rb ∈ rbs, rb.openerOrderId ≠ 0 ∧ rb.handles.empty = false := by
    intro rb hrb
    obtain ⟨b', hb', rfl⟩ := mem_map.1 (hrbs.mem_iff.1 hrb)
    exact ⟨(hplaced.opener b' hb').1, hplaced.taken b' hb'⟩
  have hmem : ocoRecovered offset b ∈ rbs := hrbs.mem_iff.2 (mem_map_of_mem hb)
  have hheld : Holds now _ _ := holds_restart hopeners hvalid _ hmem
  have hqty : (ocoRecovered offset b).qty = b.intent.qty := fmtDouble_eq_self_iff.2 h.qty
  have hstop : (ocoRecovered offset b).stopLoss = b.intent.stopLoss :=
    map_fmtDouble_eq_self_iff.2 h.stopLoss
  refine ⟨⟨_, hheld.armed, rfl, h.symbol, rfl, hqty, hstop,
    map_fmtDouble_eq_self_iff.2 h.takeProfit⟩,
    hheld.handles, ?_⟩
  intro stop hmemStop px ts order hpx hthrough
  have hpos : 0 < (ocoRecovered offset b).qty := hqty ▸ hplaced.qty b hb
  have hclose := onPrice_rehydrated now ts hopeners hvalid hmem hpos (hstop.trans hmemStop) hpx
    hthrough order
  rw [show (ocoRecovered offset b).symbol = b.intent.symbol from h.symbol] at hclose
  have hprobe : (((ocoRecovered offset b).armed now).probePrice px ts).1.intent = _ :=
    probePrice_armed
  refine ⟨_, hclose, rfl, ?_, ?_, hqty⟩
  · exact (congrArg ExitIntent.symbol hprobe).trans h.symbol
  · exact (congrArg ExitIntent.closeSide hprobe).trans rfl

end

/-- A manager all of whose brackets have quantity zero has restored no position. -/
theorem not_restored_of_qty {rbs : List RecoveredBracket} (hzero : ∀ rb ∈ rbs, rb.qty = 0)
    (hqty : 0 < b.intent.qty) : ¬ Restored a (restart now rbs) b := by
  intro h
  obtain ⟨ai, hmem, -, -, -, heq, -⟩ := h.armed
  obtain ⟨rb, hrb, hpair⟩ := mem_armed_restart hmem
  rw [(Prod.mk.inj hpair).2] at heq
  exact hqty.ne' (heq.symm.trans (hzero rb hrb))

end RoundTrip

/-- A long half a coin with a stop at 90 and a target at 120. -/
def longBracket : Placement where
  opener := 7
  intent := ⟨"BTCUSDT", .sell, 1 / 2, 1, some 90, some 120, none, none, none, 7, "trend"⟩
  ids := ⟨"111", "222", "1"⟩
  stopFirst := true

end TrueTest.Brackets
