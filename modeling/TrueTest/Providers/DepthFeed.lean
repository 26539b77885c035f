import TrueTest.Core.Event
import TrueTest.Orderbook.Invariant
import TrueTest.Providers.Binance

/-!
# Depth frames and the order book

How the engine applies the depth frames of a venue: `run_streaming` hands the snapshot that the
parser made of a frame to `apply_l2_snapshot`, which replaces the symbol's book by at most twenty
levels a side.

A `depthUpdate` frame is a difference: it names the levels that changed. Its meaning is to be
layered on the book before it (`layered`). The book ends up with the levels of the last frame alone
(`restingQty_run`), so it holds the layered map exactly if that frame happens to name every level
the book should have.
-/

namespace TrueTest

open Orderbook Arrival List Function Binance L2Level

/-! ## The quantity resting at a price -/

variable (s : Side) {ob : Orderbook} {P : List Nat} (d : DepthBody)

namespace Orderbook

/-- What rests on one side at a price. -/
def restingQty (ob : Orderbook) (s : Side) (price : Int) : Nat :=
  ob.qtySum (ob.queuedNodes.filter fun n => (ob.orderOf n).side = s ∧ (ob.orderOf n).price = price)

/-- The quantity of some orders at one side and price. -/
def qtyOf (s : Side) (price : Int) (os : List Order) : Nat :=
  ((os.filter fun o => o.side = s ∧ o.price = price).map Order.remainingQuantity).sum

theorem qtyOf_append (price : Int) (os os' : List Order) :
    qtyOf s price (os ++ os') = qtyOf s price os + qtyOf s price os' := by
  simp [qtyOf]

theorem restingQty_eq (h : Holds ob P) (s : Side) (price : Int) :
    ob.restingQty s price = qtyOf s price (P.map ob.orders) := by
  obtain ⟨L, F, hrep, rfl⟩ := h
  have hperm := (hrep.perm_queuedNodes.filter fun n =>
    (ob.orderOf n).side = s ∧ (ob.orderOf n).price = price).map
      fun n => (ob.orderOf n).remainingQuantity
  rw [restingQty, qtySum, hperm.sum_eq, map_orders_ptrOf, qtyOf, filter_map, map_map]
  rfl

/-- What some levels give to a price. -/
def levelQty (price : Int) (levels : List (Int × Nat)) : Nat :=
  ((levels.filter fun l => l.1 = price).map Prod.snd).sum

theorem qtyOf_seeds (t : Side) (price : Int) (levels : List (Int × Nat)) (gen : OrderIdGenerator) :
    qtyOf t price (seeds s levels gen).1 = if s = t then levelQty price levels else 0 := by
  induction levels generalizing gen with
  | nil => simp [seeds, qtyOf, levelQty]
  | cons level levels ih =>
    obtain ⟨p, q⟩ := level
    rw [seeds]
    by_cases hq : q = 0
    · rw [if_pos hq, ih gen]
      by_cases hp : p = price <;> simp [levelQty, hp, hq]
    · rw [if_neg hq]
      have hcons : qtyOf t price
          (Order.new .goodTillCancel gen.next.1 s p q :: (seeds s levels gen.next.2).1) =
          (if s = t ∧ p = price then q else 0) + qtyOf t price (seeds s levels gen.next.2).1 := by
        by_cases hst : s = t <;> by_cases hp : p = price <;> simp [qtyOf, Order.new, hst, hp]
      rw [hcons, ih gen.next.2]
      by_cases hst : s = t <;> by_cases hp : p = price <;> simp [levelQty, hst, hp]

variable (levels : List (Int × Nat)) (gen : OrderIdGenerator)

/-- The ids that a snapshot mints are consecutive, up to the counter's wrap. -/
theorem seeds_ids :
    ((seeds s levels gen).1.map fun o => o.orderId % 2 ^ 64) =
        (range (seeds s levels gen).1.length).map (fun i => (gen.counter + i) % 2 ^ 64) ∧
      (seeds s levels gen).2.counter % 2 ^ 64 =
        (gen.counter + (seeds s levels gen).1.length) % 2 ^ 64 := by
  induction levels generalizing gen with
  | nil => simp [seeds]
  | cons level levels ih =>
    obtain ⟨p, q⟩ := level
    rw [seeds]
    split_ifs with hq
    · exact ih gen
    · obtain ⟨hids, hgen⟩ := ih gen.next.2
      have hnext : gen.next.2.counter = (gen.counter + 1) % 2 ^ 64 := rfl
      rw [hnext] at hids hgen
      refine ⟨?_, ?_⟩
      · rw [map_cons, length_cons, range_succ_eq_map, map_cons, map_map, hids]
        refine congrArg₂ cons rfl (map_congr_left fun i _ => ?_)
        show ((gen.counter + 1) % 2 ^ 64 + i) % 2 ^ 64 = (gen.counter + (i + 1)) % 2 ^ 64
        omega
      · rw [hgen, length_cons]
        omega

theorem seeds_length_le : (seeds s levels gen).1.length ≤ levels.length := by
  induction levels generalizing gen with
  | nil => exact le_rfl
  | cons level levels ih =>
    obtain ⟨p, q⟩ := level
    rw [seeds]
    split
    · exact (ih gen).trans (Nat.le_succ _)
    · exact Nat.succ_le_succ (ih gen.next.2)

/-- A snapshot of fewer levels than the counter has values mints different ids. -/
theorem idsNodup_snapshotOrders {bids asks : List (Int × Nat)}
    (h : bids.length + asks.length < 2 ^ 64) : IdsNodup (snapshotOrders gen bids asks) := by
  obtain ⟨hbids, hgen⟩ := seeds_ids .buy bids gen
  obtain ⟨hasks, -⟩ := seeds_ids .sell asks (seeds .buy bids gen).2
  have hlen₁ := seeds_length_le .buy bids gen
  have hlen₂ := seeds_length_le .sell asks (seeds .buy bids gen).2
  set n := (seeds .buy bids gen).1.length
  set m := (seeds .sell asks (seeds .buy bids gen).2).1.length
  have hall : ((snapshotOrders gen bids asks).map fun o => o.orderId % 2 ^ 64) =
      (range (n + m)).map fun i => (gen.counter + i) % 2 ^ 64 := by
    rw [snapshotOrders, map_append, hbids, hasks, range_add, map_append, map_map]
    refine congrArg₂ (· ++ ·) rfl (map_congr_left fun i _ => ?_)
    show ((seeds .buy bids gen).2.counter + i) % 2 ^ 64 = (gen.counter + (n + i)) % 2 ^ 64
    omega
  have hnodup : ((snapshotOrders gen bids asks).map fun o => o.orderId % 2 ^ 64).Nodup := by
    rw [hall]
    refine nodup_range.map_on fun i hi j hj hij => ?_
    rw [mem_range] at hi hj
    omega
  have hcomp : ((snapshotOrders gen bids asks).map fun o => o.orderId % 2 ^ 64) =
      ((snapshotOrders gen bids asks).map Order.orderId).map (· % 2 ^ 64) := by
    rw [map_map]
    rfl
  rw [hcomp] at hnodup
  exact hnodup.of_map _

theorem restingQty_applyL2Snapshot (h : Holds ob P) (gen : OrderIdGenerator)
    {bids asks : List (Int × Nat)} (hlen : bids.length + asks.length < 2 ^ 64) :
    (∃ P', Holds (ob.applyL2Snapshot gen bids asks).1 P') ∧
      ∀ s price, (ob.applyL2Snapshot gen bids asks).1.restingQty s price =
        levelQty price (match s with | .buy => bids | .sell => asks) := by
  obtain ⟨P', h', hmap, -⟩ := h.applyL2Snapshot gen bids asks (idsNodup_snapshotOrders gen hlen)
  refine ⟨⟨P', h'⟩, fun s price => ?_⟩
  rw [restingQty_eq h', hmap, snapshotOrders, qtyOf_append, qtyOf_seeds, qtyOf_seeds]
  cases s <;> simp

end Orderbook

/-! ## The engine's books -/

/-- The books of the registry, and the id counter. -/
structure Books where
  book : String → Orderbook
  gen : OrderIdGenerator

variable (b : Books)

def l2SnapshotMaxLevels : Nat := 20

/-- A level as the book takes it; the quantity is cast to an unsigned 64-bit integer. -/
def L2Level.toBook (l : L2Level) : Int × Nat :=
  (priceFromDouble l.price, (l.quantity % 2 ^ 64).toNat)

namespace Books

def applyL2Snapshot (symbol : String) (bids asks : List L2Level) : Books :=
  let (ob, gen) := (b.book symbol).applyL2Snapshot b.gen
    ((bids.take l2SnapshotMaxLevels).map toBook)
    ((asks.take l2SnapshotMaxLevels).map toBook)
  ⟨Function.update b.book symbol ob, gen⟩

/-- The branch of `run_streaming` for snapshots. Bars and ticks are not depth frames. -/
def onEvent : ProviderEvent → Books
  | .l2Snapshot s => b.applyL2Snapshot s.symbol s.bids s.asks
  | _ => b

/-- One frame, with the time at which it arrives. -/
def onFrame (frame : Int × Message) : Books :=
  ((combinedParser frame.1 frame.2).map b.onEvent).getD b

def WellFormed : Prop := ∀ symbol, ∃ P, Holds (b.book symbol) P

end Books

/-! ## Layering frames -/

/-- The levels of a side of a frame, as the book takes them. -/
def Binance.DepthBody.levels : Side → List (Int × Nat)
  | .buy => (parseSideLevels d.bids d.b).map toBook
  | .sell => (parseSideLevels d.asks d.a).map toBook

/-- A quantity replaces that of its price, and zero removes it. -/
def layer (m : Int → Nat) (levels : List (Int × Nat)) : Int → Nat :=
  levels.foldl (fun m l => Function.update m l.1 l.2) m

/-- The quantities a symbol's book should hold after some frames. -/
def layered (m : Side → Int → Nat) (symbol : String) (frames : List (Int × Message)) :
    Side → Int → Nat :=
  frames.foldl (fun m frame =>
    if frame.2.depth.symbol = symbol then fun s => layer (m s) (frame.2.depth.levels s) else m) m

theorem layered_append (m : Side → Int → Nat) (symbol : String) (xs ys : List (Int × Message)) :
    layered m symbol (xs ++ ys) = layered (layered m symbol xs) symbol ys := by
  simp [layered]

/-- The frame has something to say about the symbol. -/
def Binance.Message.touches (m : Message) (symbol : String) : Prop :=
  m.depth.symbol = symbol ∧ ∃ s, m.depth.levels s ≠ []

theorem layered_untouched {symbol : String} {frames : List (Int × Message)}
    (h : ∀ frame ∈ frames, ¬ frame.2.touches symbol) (m : Side → Int → Nat) :
    layered m symbol frames = m := by
  induction frames generalizing m with
  | nil => rfl
  | cons frame frames ih =>
    have hrest := ih fun f hf => h f (mem_cons_of_mem frame hf)
    have hone := h frame mem_cons_self
    rw [layered, foldl_cons, ← layered, hrest]
    split_ifs with hsym
    · funext s
      have hnil : frame.2.depth.levels s = [] := by
        by_contra hne
        exact hone ⟨hsym, s, hne⟩
      rw [hnil]
      rfl
    · rfl

/-! ## What the books hold after some frames -/

section Frames

variable {b : Books} {frame : Int × Message}

/-- A frame that names no level gives no event. -/
theorem onFrame_cases (b : Books) (hframe : frame.2.eventType = "depthUpdate") :
    ((∀ s, frame.2.depth.levels s = []) ∧ b.onFrame frame = b) ∨
      ((∃ s, frame.2.depth.levels s ≠ []) ∧ b.onFrame frame =
        b.applyL2Snapshot frame.2.depth.symbol
          (parseSideLevels frame.2.depth.bids frame.2.depth.b)
          (parseSideLevels frame.2.depth.asks frame.2.depth.a)) := by
  set bids := parseSideLevels frame.2.depth.bids frame.2.depth.b with hbids
  set asks := parseSideLevels frame.2.depth.asks frame.2.depth.a with hasks
  have hparse : combinedParser frame.1 frame.2 =
      (parseDepthSnapshot frame.1 frame.2.depth).map .l2Snapshot := by
    unfold combinedParser
    rw [hframe, if_neg (by decide), if_neg (by decide), if_pos rfl]
  have hsnapshot :
      parseDepthSnapshot frame.1 frame.2.depth = if bids.isEmpty ∧ asks.isEmpty then none
        else some ⟨frame.2.depth.eventTime.getD frame.1, frame.2.depth.symbol, bids, asks⟩ := rfl
  unfold Books.onFrame
  rw [hparse, hsnapshot]
  split_ifs with hempty
  · refine .inl ⟨fun s => ?_, rfl⟩
    cases s with
    | buy => rw [DepthBody.levels, ← hbids, isEmpty_iff.1 hempty.1, map_nil]
    | sell => rw [DepthBody.levels, ← hasks, isEmpty_iff.1 hempty.2, map_nil]
  · refine .inr ⟨?_, rfl⟩
    by_cases hb : bids.isEmpty
    · refine ⟨.sell, fun hnil => hempty ⟨hb, isEmpty_iff.2 ?_⟩⟩
      exact map_eq_nil_iff.1 hnil
    · exact ⟨.buy, fun hnil => hb (isEmpty_iff.2 (map_eq_nil_iff.1 hnil))⟩

/-- The levels of a frame that the engine passes on. -/
def Binance.DepthBody.passed (s : Side) : List (Int × Nat) :=
  (d.levels s).take l2SnapshotMaxLevels

theorem applyL2Snapshot_spec (h : b.WellFormed) (d : DepthBody) :
    let b' := b.applyL2Snapshot d.symbol (parseSideLevels d.bids d.b)
      (parseSideLevels d.asks d.a)
    b'.WellFormed ∧ (∀ symbol, symbol ≠ d.symbol → b'.book symbol = b.book symbol) ∧
      ∀ s price, (b'.book d.symbol).restingQty s price = levelQty price (d.passed s) := by
  obtain ⟨P, hP⟩ := h d.symbol
  have hshort : ∀ s, (d.passed s).length ≤ l2SnapshotMaxLevels := fun s => length_take_le _ _
  have hlen : (d.passed .buy).length + (d.passed .sell).length < 2 ^ 64 := by
    have hbuy := hshort .buy
    have hsell := hshort .sell
    unfold l2SnapshotMaxLevels at hbuy hsell
    omega
  have hbuy : d.passed .buy = ((parseSideLevels d.bids d.b).take l2SnapshotMaxLevels).map toBook :=
    map_take.symm
  have hsell :
      d.passed .sell = ((parseSideLevels d.asks d.a).take l2SnapshotMaxLevels).map toBook :=
    map_take.symm
  obtain ⟨hholds, hqty⟩ := restingQty_applyL2Snapshot hP b.gen hlen
  intro b'
  have hself : b'.book d.symbol =
      ((b.book d.symbol).applyL2Snapshot b.gen (d.passed .buy) (d.passed .sell)).1 := by
    rw [hbuy, hsell]
    exact update_self _ _ _
  have hother : ∀ symbol, symbol ≠ d.symbol → b'.book symbol = b.book symbol :=
    fun symbol hne => update_of_ne hne _ _
  refine ⟨fun symbol => ?_, hother, fun s price => ?_⟩
  · by_cases hs : symbol = d.symbol
    · rw [hs, hself]
      exact hholds
    · rw [hother symbol hs]
      exact h symbol
  · rw [hself, hqty]
    cases s <;> rfl

theorem onFrame_spec (h : b.WellFormed) (hframe : frame.2.eventType = "depthUpdate")
    (symbol : String) :
    (b.onFrame frame).WellFormed ∧
      (¬ frame.2.touches symbol → (b.onFrame frame).book symbol = b.book symbol) ∧
      (frame.2.touches symbol → ∀ s price, ((b.onFrame frame).book symbol).restingQty s price =
        levelQty price (frame.2.depth.passed s)) := by
  rcases onFrame_cases b hframe with ⟨hempty, heq⟩ | ⟨hlevels, heq⟩
  · rw [heq]
    refine ⟨h, fun _ => rfl, fun htouch => ?_⟩
    obtain ⟨-, s, hs⟩ := htouch
    exact absurd (hempty s) hs
  · obtain ⟨hwf, hother, hself⟩ := applyL2Snapshot_spec h frame.2.depth
    rw [heq]
    refine ⟨hwf, fun hnot => hother symbol fun hs => hnot ⟨hs.symm, hlevels⟩, fun htouch => ?_⟩
    obtain ⟨rfl, -⟩ := htouch
    exact hself

def Books.run (b : Books) (frames : List (Int × Message)) : Books := frames.foldl Books.onFrame b

variable {frames pre post : List (Int × Message)} {symbol : String}

theorem run_wellFormed (h : b.WellFormed) (hframes : ∀ f ∈ frames, f.2.eventType = "depthUpdate") :
    (b.run frames).WellFormed := by
  induction frames generalizing b with
  | nil => exact h
  | cons f frames ih =>
    have hone := (onFrame_spec h (hframes f mem_cons_self) f.2.depth.symbol).1
    exact ih hone fun g hg => hframes g (mem_cons_of_mem f hg)

theorem run_untouched (h : b.WellFormed) (hframes : ∀ f ∈ frames, f.2.eventType = "depthUpdate")
    (huntouched : ∀ f ∈ frames, ¬ f.2.touches symbol) :
    (b.run frames).book symbol = b.book symbol := by
  induction frames generalizing b with
  | nil => rfl
  | cons f frames ih =>
    obtain ⟨hwf, hsame, -⟩ := onFrame_spec h (hframes f mem_cons_self) symbol
    have hrest := ih hwf (fun g hg => hframes g (mem_cons_of_mem f hg))
      fun g hg => huntouched g (mem_cons_of_mem f hg)
    exact hrest.trans (hsame (huntouched f mem_cons_self))

/-- Only the last frame of a symbol counts. -/
theorem restingQty_run (h : b.WellFormed)
    (hframes : ∀ f ∈ pre ++ frame :: post, f.2.eventType = "depthUpdate")
    (htouch : frame.2.touches symbol)
    (hpost : ∀ f ∈ post, ¬ f.2.touches symbol) (s : Side) (price : Int) :
    ((b.run (pre ++ frame :: post)).book symbol).restingQty s price =
      levelQty price (frame.2.depth.passed s) := by
  have hpre := run_wellFormed h fun f hf => hframes f (mem_append_left _ hf)
  have hframe := hframes frame (mem_append_right _ mem_cons_self)
  obtain ⟨hwf, -, hself⟩ := onFrame_spec hpre hframe symbol
  have hrest := run_untouched hwf
    (fun f hf => hframes f (mem_append_right _ (mem_cons_of_mem frame hf))) hpost
  have hrun : b.run (pre ++ frame :: post) = ((b.run pre).onFrame frame).run post := by
    simp [Books.run]
  rw [hrun, hrest]
  exact hself htouch s price

end Frames

/-! ## When the books are the layered ones -/

section Layer

variable {levels : List (Int × Nat)} {price : Int}

theorem layer_of_not_mem (h : ∀ l ∈ levels, l.1 ≠ price) (m : Int → Nat) :
    layer m levels price = m price := by
  induction levels generalizing m with
  | nil => rfl
  | cons l levels ih =>
    have hrest := ih (fun l' hl' => h l' (mem_cons_of_mem l hl')) (Function.update m l.1 l.2)
    have hne : price ≠ l.1 := Ne.symm (h l mem_cons_self)
    exact hrest.trans (update_of_ne hne _ _)

/-- A price that the levels name takes nothing from the map before. -/
theorem layer_of_mem (h : ∃ l ∈ levels, l.1 = price) (m m' : Int → Nat) :
    layer m levels price = layer m' levels price := by
  induction levels generalizing m m' with
  | nil =>
    obtain ⟨l, hl, -⟩ := h
    exact absurd hl not_mem_nil
  | cons l levels ih =>
    show layer (Function.update m l.1 l.2) levels price =
      layer (Function.update m' l.1 l.2) levels price
    by_cases hrest : ∃ l' ∈ levels, l'.1 = price
    · exact ih hrest _ _
    · have hnone : ∀ l' ∈ levels, l'.1 ≠ price := fun l' hl' he => hrest ⟨l', hl', he⟩
      obtain ⟨l', hl', he⟩ := h
      rcases mem_cons.1 hl' with rfl | hl'
      · rw [layer_of_not_mem hnone, layer_of_not_mem hnone, ← he, update_self, update_self]
      · exact absurd he (hnone l' hl')

theorem levelQty_of_not_mem (h : ∀ l ∈ levels, l.1 ≠ price) : levelQty price levels = 0 := by
  have hnone : levels.filter (fun l => l.1 = price) = [] :=
    filter_eq_nil_iff.2 fun l hl he => h l hl (of_decide_eq_true he)
  rw [levelQty, hnone]
  rfl

end Layer

/-- The frame names every price that has a quantity before it, and what the engine passes on of the
frame adds up, at each price, to the last quantity that the frame gives the price. -/
def Binance.DepthBody.Complete (m : Side → Int → Nat) : Prop :=
  ∀ s, (∀ price, m s price ≠ 0 → ∃ l ∈ d.levels s, l.1 = price) ∧
    ∀ l ∈ d.levels s, levelQty l.1 (d.passed s) = layer (fun _ => 0) (d.levels s) l.1

theorem complete_iff (m : Side → Int → Nat) :
    (∀ s price, levelQty price (d.passed s) = layer (m s) (d.levels s) price) ↔ d.Complete m := by
  refine forall_congr' fun s => ⟨fun h => ⟨fun price hprice => ?_, fun l hl => ?_⟩,
    fun h price => ?_⟩
  · by_contra hnone
    have hlevels : ∀ l ∈ d.levels s, l.1 ≠ price := fun l hl he => hnone ⟨l, hl, he⟩
    have hpassed : ∀ l ∈ d.passed s, l.1 ≠ price := fun l hl => hlevels l (mem_of_mem_take hl)
    have heq := h price
    rw [levelQty_of_not_mem hpassed, layer_of_not_mem hlevels] at heq
    exact hprice heq.symm
  · rw [h l.1]
    exact layer_of_mem ⟨l, hl, rfl⟩ _ _
  · obtain ⟨hbefore, hsum⟩ := h
    by_cases hnamed : ∃ l ∈ d.levels s, l.1 = price
    · obtain ⟨l, hl, rfl⟩ := hnamed
      rw [hsum l hl]
      exact layer_of_mem ⟨l, hl, rfl⟩ _ _
    · have hlevels : ∀ l ∈ d.levels s, l.1 ≠ price := fun l hl he => hnamed ⟨l, hl, he⟩
      have hpassed : ∀ l ∈ d.passed s, l.1 ≠ price := fun l hl => hlevels l (mem_of_mem_take hl)
      have hzero : m s price = 0 := by
        by_contra hne
        exact hnamed (hbefore price hne)
      rw [levelQty_of_not_mem hpassed, layer_of_not_mem hlevels, hzero]

/-- Some frames touch the symbol and one of them is the last, or none does. -/
theorem last_touching (symbol : String) (frames : List (Int × Message)) :
    (∀ f ∈ frames, ¬ f.2.touches symbol) ∨
      ∃ pre frame post, frames = pre ++ frame :: post ∧ frame.2.touches symbol ∧
        ∀ f ∈ post, ¬ f.2.touches symbol := by
  induction frames with
  | nil => exact .inl fun f hf => absurd hf not_mem_nil
  | cons f frames ih =>
    rcases ih with hnone | ⟨pre, frame, post, rfl, htouch, hpost⟩
    · by_cases hf : f.2.touches symbol
      · exact .inr ⟨[], f, frames, rfl, hf, hnone⟩
      · exact .inl fun g hg => (mem_cons.1 hg).elim (fun h => h ▸ hf) (hnone g)
    · exact .inr ⟨f :: pre, frame, post, rfl, htouch, hpost⟩

/-- What the symbol's book should hold after some frames, at the prices and in the quantities to
which the engine converts theirs (`L2Level.toBook`). -/
def Books.expected (symbol : String) (frames : List (Int × Message)) : Side → Int → Nat :=
  layered (fun s => (b.book symbol).restingQty s) symbol frames

/-- **The book is the layered one exactly if the symbol's last frame is complete.** -/
theorem restingQty_eq_expected_iff {b : Books} (h : b.WellFormed) (symbol : String)
    {frames : List (Int × Message)}
    (hframes : ∀ f ∈ frames, f.2.eventType = "depthUpdate") :
    (∀ s price, ((b.run frames).book symbol).restingQty s price =
      b.expected symbol frames s price) ↔
      ∀ pre frame post, frames = pre ++ frame :: post → frame.2.touches symbol →
        (∀ f ∈ post, ¬ f.2.touches symbol) →
        frame.2.depth.Complete (b.expected symbol pre) := by
  have hsplit : ∀ pre frame post, frames = pre ++ frame :: post → frame.2.touches symbol →
      (∀ f ∈ post, ¬ f.2.touches symbol) →
      ((∀ s price, ((b.run frames).book symbol).restingQty s price =
        b.expected symbol frames s price) ↔ frame.2.depth.Complete (b.expected symbol pre)) := by
    intro pre frame post heq htouch hpost
    subst heq
    have hexpected : b.expected symbol (pre ++ frame :: post) =
        fun s => layer (b.expected symbol pre s) (frame.2.depth.levels s) := by
      have hcons : frame :: post = [frame] ++ post := rfl
      rw [Books.expected, hcons, ← append_assoc, layered_append, layered_untouched hpost,
        layered_append]
      exact if_pos htouch.1
    simp only [restingQty_run h hframes htouch hpost, hexpected]
    exact complete_iff _ _
  refine ⟨fun hall pre frame post heq htouch hpost =>
    (hsplit pre frame post heq htouch hpost).1 hall, fun hcomplete => ?_⟩
  rcases last_touching symbol frames with hnone | ⟨pre, frame, post, heq, htouch, hpost⟩
  · intro s price
    rw [run_untouched h hframes hnone, Books.expected, layered_untouched hnone]
  · exact (hsplit pre frame post heq htouch hpost).2 (hcomplete pre frame post heq htouch hpost)

/-! ## Two frames -/

def bidFrame (levels : List (ℚ × ℚ)) : Int × Message :=
  (0, {
    stream := "btcusdt@depth@100ms"
    eventType := "depthUpdate"
    trade := ⟨none, none, "", none, false⟩
    k := none
    depth := ⟨"BTCUSDT", some 0, [], levels, [], []⟩ })

def emptyBooks : Books := ⟨fun _ => Orderbook.init, ⟨1⟩⟩

theorem emptyBooks_wellFormed : emptyBooks.WellFormed := fun _ => ⟨[], holds_init⟩

theorem bidFrame_levels :
    (bidFrame [(100, 1)]).2.depth.levels .buy = [(1000000, 100000000)] ∧
      (bidFrame [(100, 1), (99, 2)]).2.depth.levels .buy =
        [(1000000, 100000000), (990000, 200000000)] ∧
      (bidFrame [(99, 2)]).2.depth.levels .buy = [(990000, 200000000)] := by
  decide +kernel

/-- A second frame that repeats the first frame's level keeps it. -/
theorem restingQty_eq_expected_of_repeated :
    let frames := [bidFrame [(100, 1)], bidFrame [(100, 1), (99, 2)]]
    ∀ s price, ((emptyBooks.run frames).book "BTCUSDT").restingQty s price =
      emptyBooks.expected "BTCUSDT" frames s price := by
  intro frames
  have hframes : ∀ f ∈ frames, f.2.eventType = "depthUpdate" :=
    forall_mem_cons.2 ⟨rfl, forall_mem_singleton.2 rfl⟩
  obtain ⟨hfirst, hsecond, -⟩ := bidFrame_levels
  have hlast : (bidFrame [(100, 1), (99, 2)]).2.touches "BTCUSDT" :=
    ⟨rfl, .buy, by rw [hsecond]; exact cons_ne_nil _ _⟩
  refine (restingQty_eq_expected_iff emptyBooks_wellFormed "BTCUSDT" hframes).2 ?_
  intro pre frame post heq _ hpost
  -- The second frame is the last one.
  match pre, heq with
  | [], heq =>
    obtain ⟨rfl, rfl⟩ := cons.inj heq
    exact absurd hlast (hpost _ mem_cons_self)
  | [_], heq =>
    obtain ⟨rfl, htail⟩ := cons.inj heq
    obtain ⟨rfl, rfl⟩ := cons.inj htail
    intro s
    cases s with
    | sell =>
      refine ⟨fun price hne => absurd ?_ hne, fun l hl => absurd hl not_mem_nil⟩
      rfl
    | buy =>
      rw [hsecond]
      refine ⟨fun price hne => ?_, by decide +kernel⟩
      refine ⟨(1000000, 100000000), mem_cons_self, ?_⟩
      by_contra hother
      refine hne ?_
      show layer _ ((bidFrame [(100, 1)]).2.depth.levels .buy) price = 0
      rw [hfirst, layer_of_not_mem fun l hl => by rw [mem_singleton.1 hl]; exact hother]
      rfl
  | _ :: _ :: pre, heq =>
    have hlen := congrArg length heq
    simp [frames] at hlen

/-- After a bid at 100 and then a bid at 99 the book has lost the first. -/
theorem restingQty_ne_expected_of_two_frames :
    let frames := [bidFrame [(100, 1)], bidFrame [(99, 2)]]
    ((emptyBooks.run frames).book "BTCUSDT").restingQty .buy 1000000 ≠
      emptyBooks.expected "BTCUSDT" frames .buy 1000000 := by
  intro frames
  have hframes : ∀ f ∈ [bidFrame [(100, 1)]] ++ bidFrame [(99, 2)] :: [],
      f.2.eventType = "depthUpdate" := forall_mem_cons.2 ⟨rfl, forall_mem_singleton.2 rfl⟩
  obtain ⟨hfirst, -, hsecond⟩ := bidFrame_levels
  have hlast : (bidFrame [(99, 2)]).2.touches "BTCUSDT" :=
    ⟨rfl, .buy, by rw [hsecond]; exact cons_ne_nil _ _⟩
  have hbook := restingQty_run emptyBooks_wellFormed hframes hlast
    (fun f hf => absurd hf not_mem_nil) .buy 1000000
  have hexpected : emptyBooks.expected "BTCUSDT" frames .buy =
      layer (layer (emptyBooks.book "BTCUSDT" |>.restingQty .buy)
        ((bidFrame [(100, 1)]).2.depth.levels .buy))
        ((bidFrame [(99, 2)]).2.depth.levels .buy) := rfl
  rw [hexpected, hfirst, hsecond, layer_of_not_mem (by decide)]
  show ((emptyBooks.run ([bidFrame [(100, 1)]] ++ bidFrame [(99, 2)] :: [])).book
    "BTCUSDT").restingQty .buy 1000000 ≠ 100000000
  rw [hbook]
  decide +kernel

end TrueTest
