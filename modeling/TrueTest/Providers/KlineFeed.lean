import TrueTest.Providers.Binance
import TrueTest.Providers.Bitget
import TrueTest.Util.Machine

/-!
# Bars from kline frames

A venue announces an interval of a symbol by frames that update the open candle. Binance and the
older Bitget feed mark the frame that closes the interval; the newer Bitget feed marks nothing, and
an interval is closed when a frame of the symbol's next one arrives. The frames of different symbols
interleave in any way.

A bar stream should have one bar for each completed interval, with the values of the interval's last
frame. The Binance parsers deliver a bar for every frame, so this holds only if no frame updates an
open candle. The Bitget parsers hold back one candle, whatever its symbol, until a frame without a
mark starts another interval, so they get it right as long as the frame after a candle is as good as
the symbol's own next one (`Bitget.InStep`): always for marked frames, and for unmarked ones of a
single symbol.
-/

namespace TrueTest

open List Bitget KlineClosedGate ProviderEvent

def ProviderEvent.asBar : ProviderEvent → Option Bar
  | .bar b => some b
  | _ => none

variable (symbol : String)

def barsOf (bars : List Bar) : List Bar := bars.filter fun b => b.symbol = symbol

/-! ## Intervals -/

section Intervals

variable {φ : Type} {date : φ → String} {mark : φ → Option Bool} {f : φ}

/-- Frames of one symbol, and the last frames of the intervals they complete. A frame may be marked
as closing its interval or as leaving it open; without a mark, the next interval closes it. -/
inductive Announces (date : φ → String) (mark : φ → Option Bool) : List φ → List φ → Prop
  | ongoing (day : String) {updates : List φ} (hdate : ∀ f ∈ updates, date f = day)
      (hopen : ∀ f ∈ updates, mark f ≠ some true) : Announces date mark updates []
  | marked (updates : List φ) {last : φ} {rest closing : List φ}
      (hdate : ∀ f ∈ updates, date f = date last) (hopen : ∀ f ∈ updates, mark f ≠ some true)
      (hlast : mark last = some true) (hrest : Announces date mark rest closing) :
      Announces date mark (updates ++ last :: rest) (last :: closing)
  | unmarked (updates : List φ) {last next : φ} {rest closing : List φ}
      (hdate : ∀ f ∈ updates, date f = date last) (hopen : ∀ f ∈ updates, mark f = none)
      (hlast : mark last = none) (hnext : date next ≠ date last)
      (hrest : Announces date mark (next :: rest) closing) :
      Announces date mark (updates ++ last :: next :: rest) (last :: closing)

/-- A frame of another interval than `f`. -/
def startsAnother (date : φ → String) (f : φ) (next : Option φ) : Bool :=
  next.any fun g => date g ≠ date f

/-- Whether `f`, followed by `rest`, is the last frame of a completed interval. -/
def completes (date : φ → String) (mark : φ → Option Bool) (f : φ) (next : Option φ) : Bool :=
  mark f = some true ∨ (mark f = none ∧ startsAnother date f next)

/-- The last frames of the completed intervals. -/
def closingFrames (date : φ → String) (mark : φ → Option Bool) : List φ → List φ
  | [] => []
  | f :: rest =>
    if completes date mark f rest.head? then f :: closingFrames date mark rest
    else closingFrames date mark rest

theorem completes_of_marked (h : mark f = some true) (next : Option φ) :
    completes date mark f next = true := by
  simp [completes, h]

theorem not_completes_of_same {next : Option φ} (h : mark f ≠ some true)
    (hnext : ∀ g ∈ next, date g = date f) : completes date mark f next = false := by
  have hsame : startsAnother date f next = false := by
    cases next with
    | none => rfl
    | some g => simp [startsAnother, hnext g rfl]
  simp [completes, h, hsame]

/-- Updates close nothing. -/
theorem closingFrames_append {updates rest : List φ} {day : String}
    (hdate : ∀ f ∈ updates, date f = day)
    (hopen : ∀ f ∈ updates, mark f ≠ some true) (hrest : ∀ g ∈ rest.head?, date g = day) :
    closingFrames date mark (updates ++ rest) = closingFrames date mark rest := by
  induction updates with
  | nil => rfl
  | cons f updates ih =>
    have hnext : ∀ g ∈ (updates ++ rest).head?, date g = date f := by
      intro g hg
      rw [hdate f mem_cons_self]
      cases updates with
      | nil => exact hrest g hg
      | cons h updates =>
        cases Option.mem_some.1 hg
        exact hdate _ (mem_cons_of_mem f mem_cons_self)
    rw [cons_append, closingFrames,
      not_completes_of_same (hopen f mem_cons_self) hnext, if_neg Bool.false_ne_true]
    exact ih (fun g hg => hdate g (mem_cons_of_mem f hg)) fun g hg => hopen g (mem_cons_of_mem f hg)

theorem Announces.closing_eq {frames closing : List φ} (h : Announces date mark frames closing) :
    closing = closingFrames date mark frames := by
  induction h with
  | @ongoing day updates hdate hopen =>
    rw [← append_nil updates, closingFrames_append hdate hopen (by simp)]
    rfl
  | @marked updates last rest closing hdate hopen hlast hrest ih =>
    rw [closingFrames_append hdate hopen (by simp), closingFrames,
      completes_of_marked hlast, if_pos rfl, ← ih]
  | @unmarked updates last next rest closing hdate hopen hlast hnext hrest ih =>
    have hcompletes : completes date mark last (next :: rest).head? = true := by
      simp [completes, startsAnother, hlast, hnext]
    rw [closingFrames_append hdate (fun f hf => by simp [hopen f hf]) (by simp), closingFrames,
      hcompletes, if_pos rfl, ← ih]

/-- Where every frame is marked, the marks decide. -/
theorem closingFrames_eq_filter {frames : List φ} (h : ∀ f ∈ frames, (mark f).isSome) :
    closingFrames date mark frames = frames.filter fun f => mark f = some true := by
  induction frames with
  | nil => rfl
  | cons f rest ih =>
    have hmark : completes date mark f rest.head? = decide (mark f = some true) := by
      have hsome := h f mem_cons_self
      cases hf : mark f with
      | none => simp [hf] at hsome
      | some b => simp [completes, hf]
    rw [closingFrames, hmark, ih fun g hg => h g (mem_cons_of_mem f hg), filter_cons]

def framesOf (bar : φ → Bar) (symbol : String) (frames : List φ) : List φ :=
  frames.filter fun f => (bar f).symbol = symbol

theorem framesOf_cons (bar : φ → Bar) (symbol : String) (f : φ) (rest : List φ) :
    framesOf bar symbol (f :: rest) =
      if (bar f).symbol = symbol then f :: framesOf bar symbol rest
      else framesOf bar symbol rest := by
  simp only [framesOf, filter_cons, decide_eq_true_eq]

end Intervals

/-! ## Binance -/

namespace Binance

/-- A kline frame that parses, with the time of its arrival. -/
structure KlineFrame where
  now : Int
  msg : Message
  bar : Bar
  parses : parseKline msg = some bar

variable (frames : List KlineFrame) (f : KlineFrame)

/-- The flag `x`. -/
def KlineFrame.closes : Bool := f.msg.k.any KlineBody.x

/-- The bars that `BinanceKlineParser` delivers. -/
def klineBars : List Bar := frames.filterMap fun f => klineParser f.msg

/-- The bars among the events of `BinanceCombinedParser`. -/
def combinedBars : List Bar :=
  frames.filterMap fun f => (combinedParser f.now f.msg).bind asBar

theorem klineBars_eq : klineBars frames = frames.map KlineFrame.bar := by
  rw [klineBars, ← filterMap_eq_map]
  exact filterMap_congr fun f _ => f.parses

theorem combinedBars_eq : combinedBars frames = klineBars frames := by
  refine filterMap_congr fun f _ => ?_
  have htype : f.msg.eventType = "kline" := by
    by_contra hne
    have hparses := f.parses
    rw [parseKline, if_pos hne] at hparses
    cases hparses
  have hparse : combinedParser f.now f.msg = (parseKline f.msg).map .bar := by
    unfold combinedParser
    rw [htype, if_neg (by decide), if_pos rfl]
  rw [hparse, klineParser, f.parses]
  rfl

/-- Every frame gives a bar, so the bars are those of the closing frames exactly if there are no
others. -/
theorem klineBars_iff {frames : List KlineFrame} {closing : String → List KlineFrame}
    (h : ∀ symbol, Announces (fun f => f.bar.date) (fun f => some f.closes)
      (framesOf KlineFrame.bar symbol frames) (closing symbol)) :
    (∀ symbol, barsOf symbol (klineBars frames) = (closing symbol).map KlineFrame.bar) ↔
      ∀ f ∈ frames, f.closes = true := by
  have hclosing : ∀ symbol, closing symbol =
      (framesOf KlineFrame.bar symbol frames).filter KlineFrame.closes := by
    intro symbol
    rw [(h symbol).closing_eq, closingFrames_eq_filter fun f _ => rfl]
    simp
  have hbars : ∀ symbol, barsOf symbol (klineBars frames) =
      (framesOf KlineFrame.bar symbol frames).map KlineFrame.bar := by
    intro symbol
    rw [klineBars_eq, barsOf, filter_map]
    rfl
  simp only [hbars, hclosing]
  refine ⟨fun hsame f hf => ?_, fun hall symbol => ?_⟩
  · have hlen := congrArg length (hsame f.bar.symbol)
    rw [length_map, length_map] at hlen
    have hself := length_filter_eq_length_iff.1 hlen.symm
    exact hself f (mem_filter.2 ⟨hf, by simp⟩)
  · have hself : (framesOf KlineFrame.bar symbol frames).filter KlineFrame.closes =
        framesOf KlineFrame.bar symbol frames :=
      filter_eq_self.2 fun f hf => hall f (mem_filter.1 hf).1
    rw [hself]

end Binance

/-! ## Bitget -/

namespace Bitget

open Machine

/-- A kline push that parses, with the time of its arrival. -/
structure KlineFrame where
  now : Int
  msg : Message
  bar : Bar
  topic : msg.topic = "kline"
  parses : parseKline msg = some bar

variable (frames : List KlineFrame) (f : KlineFrame)

def KlineFrame.date : String := f.bar.date

def KlineFrame.confirm : Option Bool := f.msg.kline.confirm

/-- The bars that `BitgetKlineParser` delivers. -/
def klineBars (g : KlineClosedGate) (frames : List KlineFrame) : List Bar :=
  (outputs klineParser g (frames.map KlineFrame.msg)).reduceOption

/-- The bars among the events of `BitgetCombinedParser`. -/
def combinedBars (g : KlineClosedGate) (frames : List KlineFrame) : List Bar :=
  (outputs combinedParser g (frames.map fun f => (f.now, f.msg))).flatten.filterMap
    asBar

/-- Whether the frame after an open candle makes the gate give the candle up as closed. -/
def displaces (b : Bar) (next : Option KlineFrame) : Bool :=
  next.any fun g => g.confirm = none ∧ g.date ≠ b.date

/-- Whether the parser delivers `f`: at once if it is marked so, or when the next frame displaces
it. -/
def delivers (next : Option KlineFrame) : Bool :=
  f.confirm = some true ∨ displaces f.bar next

/-- A frame is delivered for the frame after it exactly if it completes its interval for the
symbol's own next frame. -/
def InStep : List KlineFrame → Prop
  | [] => True
  | f :: rest =>
    delivers f rest.head? = completes KlineFrame.date KlineFrame.confirm f
      (framesOf KlineFrame.bar f.bar.symbol rest).head? ∧ InStep rest

def gateBars : List KlineFrame → List Bar
  | [] => []
  | f :: rest => if delivers f rest.head? then f.bar :: gateBars rest else gateBars rest

/-- What the next frame makes the gate give up. -/
def KlineClosedGate.displaced (g : KlineClosedGate) (next : Option KlineFrame) : List Bar :=
  match g.pending with
  | none => []
  | some p => if displaces p next then [p] else []

section

variable (g : KlineClosedGate)

theorem klineParser_frame : klineParser g f.msg = g.onBar f.bar f.confirm := by
  rw [klineParser, f.parses]
  rfl

/-- A frame is delivered at once if marked, and then as the held candle of the gate. -/
theorem onBar_displaced (rest : List KlineFrame) :
    (g.onBar f.bar f.confirm).1.toList ++ (g.onBar f.bar f.confirm).2.displaced rest.head? ++
        gateBars rest =
      g.displaced (some f) ++ gateBars (f :: rest) := by
  obtain ⟨pending⟩ := g
  cases hc : f.confirm with
  | some closed =>
    have hkeep : ∀ p, displaces p (some f) = false := fun p => by simp [displaces, hc]
    cases closed <;> cases pending <;> by_cases hnext : displaces f.bar rest.head? = true <;>
        simp [onBar, displaced, gateBars, delivers, hc, hkeep, hnext]
  | none =>
    have hmove : ∀ p, displaces p (some f) = true ↔ f.bar.date ≠ p.date :=
      fun p => by simp [displaces, hc, KlineFrame.date]
    cases pending with
    | none =>
      by_cases hnext : displaces f.bar rest.head? = true <;>
        simp [onBar, displaced, gateBars, delivers, hc, hnext]
    | some p =>
      by_cases hdate : f.bar.date = p.date <;>
          by_cases hnext : displaces f.bar rest.head? = true <;>
          simp [onBar, displaced, gateBars, delivers, hc, hmove, hdate, hnext]

theorem klineBars_eq : klineBars g frames = g.displaced frames.head? ++ gateBars frames := by
  induction frames generalizing g with
  | nil =>
    obtain ⟨_ | p⟩ := g <;> rfl
  | cons f rest ih =>
    have hstep : klineBars g (f :: rest) =
        (g.onBar f.bar f.confirm).1.toList ++ klineBars (g.onBar f.bar f.confirm).2 rest := by
      rw [klineBars, map_cons, outputs, klineParser_frame]
      cases (g.onBar f.bar f.confirm).1 <;> rfl
    rw [hstep, ih, ← append_assoc]
    exact onBar_displaced f g rest

/-- On kline pushes the combined parser is the kline parser. -/
theorem combinedBars_eq : combinedBars g frames = klineBars g frames := by
  induction frames generalizing g with
  | nil => rfl
  | cons f rest ih =>
    have hparse : combinedParser g (f.now, f.msg) =
        ((klineParser g f.msg).1.toList.map .bar, (klineParser g f.msg).2) := by
      simp [combinedParser, f.topic]
    have hbars : ((klineParser g f.msg).1.toList.map bar).filterMap
        asBar = (klineParser g f.msg).1.toList := by
      cases (klineParser g f.msg).1 <;> rfl
    have hkline : klineBars g (f :: rest) =
        (klineParser g f.msg).1.toList ++ klineBars (klineParser g f.msg).2 rest := by
      rw [klineBars, map_cons, outputs]
      cases (klineParser g f.msg).1 <;> rfl
    rw [combinedBars, map_cons, outputs, hparse, flatten_cons, filterMap_append, hbars, hkline,
      ← ih]
    rfl

end

/-! ### Candles that stay in step -/

/-- The last frames of a symbol's completed intervals. -/
def closingOf (frames : List KlineFrame) : List KlineFrame :=
  closingFrames KlineFrame.date KlineFrame.confirm (framesOf KlineFrame.bar symbol frames)

theorem closingOf_cons (rest : List KlineFrame) : closingOf symbol (f :: rest) =
      if f.bar.symbol = symbol ∧ completes KlineFrame.date KlineFrame.confirm f
        (framesOf KlineFrame.bar symbol rest).head? then f :: closingOf symbol rest
      else closingOf symbol rest := by
  rw [closingOf, framesOf_cons]
  by_cases hs : f.bar.symbol = symbol
  · simp only [hs, if_true, true_and]
    rfl
  · simp only [hs, if_false, false_and]
    rfl

theorem barsOf_gateBars_cons (rest : List KlineFrame) : barsOf symbol (gateBars (f :: rest)) =
      if f.bar.symbol = symbol ∧ delivers f rest.head? then
        f.bar :: barsOf symbol (gateBars rest)
      else barsOf symbol (gateBars rest) := by
  rw [gateBars]
  by_cases hs : f.bar.symbol = symbol <;> by_cases hd : delivers f rest.head? = true <;>
    simp [barsOf, hs, hd]

theorem gateBars_sublist :
    ∀ frames : List KlineFrame, (gateBars frames).Sublist (frames.map KlineFrame.bar)
  | [] => .refl _
  | f :: rest => by
    rw [gateBars]
    split
    · exact (gateBars_sublist rest).cons_cons _
    · exact (gateBars_sublist rest).cons _

theorem closingOf_sublist (symbol : String) : ∀ frames : List KlineFrame,
    (closingOf symbol frames).Sublist frames
  | [] => .refl _
  | f :: rest => by
    rw [closingOf_cons]
    split
    · exact (closingOf_sublist symbol rest).cons_cons _
    · exact (closingOf_sublist symbol rest).cons _

theorem InStep.gateBars_eq {frames : List KlineFrame} (h : InStep frames) (symbol : String) :
    barsOf symbol (gateBars frames) = (closingOf symbol frames).map KlineFrame.bar := by
  induction frames with
  | nil => rfl
  | cons f rest ih =>
    obtain ⟨hf, hrest⟩ := h
    rw [barsOf_gateBars_cons, closingOf_cons, ih hrest, hf]
    by_cases hs : f.bar.symbol = symbol
    · simp only [hs, true_and]
      split <;> rfl
    · simp only [hs, false_and, if_false]

/-- Where no two frames have the same bar, being in step is also necessary. -/
theorem inStep_of_gateBars_eq {frames : List KlineFrame}
    (hdistinct : (frames.map KlineFrame.bar).Nodup)
    (h : ∀ symbol, barsOf symbol (gateBars frames) = (closingOf symbol frames).map KlineFrame.bar) :
    InStep frames := by
  induction frames with
  | nil => trivial
  | cons f rest ih =>
    obtain ⟨hfresh, hdistinct⟩ := nodup_cons.1 hdistinct
    set A := delivers f rest.head? with hA
    set B := completes KlineFrame.date KlineFrame.confirm f
      (framesOf KlineFrame.bar f.bar.symbol rest).head? with hB
    have hgate : f.bar ∉ barsOf f.bar.symbol (gateBars rest) := fun hmem =>
      hfresh ((gateBars_sublist rest).subset (mem_filter.1 hmem).1)
    have hclosing : f.bar ∉ (closingOf f.bar.symbol rest).map KlineFrame.bar := fun hmem =>
      hfresh (((closingOf_sublist _ rest).map _).subset hmem)
    have hself := h f.bar.symbol
    rw [barsOf_gateBars_cons, closingOf_cons, ← hA, ← hB] at hself
    simp only [true_and] at hself
    -- The bar of `f` is delivered, or completes its interval, only as the first of the list.
    have hAB : A = B := by
      cases hA' : A <;> cases hB' : B <;> simp only [hA', hB', if_true, if_false,
        Bool.false_eq_true, map_cons] at hself ⊢
      · rw [hself] at hgate
        exact absurd mem_cons_self hgate
      · rw [← hself] at hclosing
        exact absurd mem_cons_self hclosing
    refine ⟨hAB, ih hdistinct fun symbol => ?_⟩
    by_cases hs : f.bar.symbol = symbol
    · subst hs
      rw [hAB] at hself
      split at hself
      · exact (cons.inj hself).2
      · exact hself
    · have hother := h symbol
      rw [barsOf_gateBars_cons, closingOf_cons] at hother
      simpa only [hs, false_and, if_false] using hother

/-- Unmarked frames of one symbol are in step. -/
theorem inStep_of_single (symbol : String) : ∀ {frames : List KlineFrame},
    (∀ f ∈ frames, f.confirm = none ∧ f.bar.symbol = symbol) → InStep frames
  | [], _ => trivial
  | f :: rest, h => by
    have hrest : ∀ g ∈ rest, g.confirm = none ∧ g.bar.symbol = symbol :=
      fun g hg => h g (mem_cons_of_mem f hg)
    refine ⟨?_, inStep_of_single symbol hrest⟩
    obtain ⟨hc, hs⟩ := h f mem_cons_self
    have hown : framesOf KlineFrame.bar f.bar.symbol rest = rest :=
      filter_eq_self.2 fun g hg => by simp [(hrest g hg).2, hs]
    have hnext : ∀ g ∈ rest.head?, g.confirm = none := fun g hg =>
      (hrest g (mem_of_mem_head? hg)).1
    rw [hown]
    cases hr : rest.head? with
    | none => simp [delivers, completes, displaces, startsAnother, hc]
    | some g =>
      have hg := hnext g hr
      by_cases hd : g.bar.date = f.bar.date <;>
        simp [delivers, completes, displaces, startsAnother, hc, hg, hd, KlineFrame.date]

end Bitget

/-! ## The bar streams -/

/-- **The bars of the completed intervals.** The Binance parsers deliver, symbol by symbol, the bars
of the closing frames exactly if every frame closes its interval. The Bitget parsers deliver them if
the frames are in step, and, unless two frames have the same bar, only then. -/
theorem bars_eq_closing_iff
    {binance : List Binance.KlineFrame} {binanceClosing : String → List Binance.KlineFrame}
    (hbinance : ∀ symbol, Announces (fun f => f.bar.date) (fun f => some f.closes)
      (framesOf Binance.KlineFrame.bar symbol binance) (binanceClosing symbol))
    {bitget : List KlineFrame} {bitgetClosing : String → List KlineFrame}
    (hbitget : ∀ symbol, Announces KlineFrame.date KlineFrame.confirm
      (framesOf KlineFrame.bar symbol bitget) (bitgetClosing symbol)) :
    ((∀ symbol,
        barsOf symbol (Binance.klineBars binance) =
          (binanceClosing symbol).map Binance.KlineFrame.bar ∧
        barsOf symbol (Binance.combinedBars binance) =
          (binanceClosing symbol).map Binance.KlineFrame.bar) ↔
      ∀ f ∈ binance, f.closes = true) ∧
    (InStep bitget → ∀ symbol,
        barsOf symbol (klineBars .init bitget) =
          (bitgetClosing symbol).map KlineFrame.bar ∧
        barsOf symbol (combinedBars .init bitget) =
          (bitgetClosing symbol).map KlineFrame.bar) ∧
    ((bitget.map KlineFrame.bar).Nodup →
      (∀ symbol, barsOf symbol (klineBars .init bitget) =
          (bitgetClosing symbol).map KlineFrame.bar ∧
        barsOf symbol (combinedBars .init bitget) =
          (bitgetClosing symbol).map KlineFrame.bar) →
      InStep bitget) := by
  have hclosing : ∀ symbol, bitgetClosing symbol = closingOf symbol bitget :=
    fun symbol => (hbitget symbol).closing_eq
  have hgate : klineBars .init bitget = gateBars bitget := klineBars_eq _ _
  simp only [Binance.combinedBars_eq, combinedBars_eq, and_self, hclosing, hgate]
  exact ⟨Binance.klineBars_iff hbinance, InStep.gateBars_eq, inStep_of_gateBars_eq⟩

def Binance.btcFrame (closed : Bool) (close : ℚ) : Binance.KlineFrame where
  now := 0
  msg := ⟨"", "kline", ⟨none, none, "", none, false⟩,
    some ⟨some 100, some 110, some 90, some close, none, "BTCUSDT", "0", closed⟩,
    ⟨"", none, [], [], [], []⟩⟩
  bar := ⟨"0", "BTCUSDT", 100, 110, 90, close, 0⟩
  parses := rfl

/-- A Bitget frame without `confirm`. -/
def Bitget.utaFrame (hsymbol : symbol ≠ "") (start : String) (hstart : start ≠ "")
    (close : ℚ) : KlineFrame where
  now := 0
  msg := ⟨"kline", symbol, "1m", "", [], ⟨none, none, "", none⟩,
    ⟨some 100, some 110, some 90, some close, none, start, none⟩, ⟨none, [], []⟩⟩
  bar := ⟨start, symbol, 100, 110, 90, close, 0⟩
  topic := rfl
  parses := by simp [parseKline, hsymbol, hstart]

/-- Frames that are all of one symbol announce nothing for the others. -/
theorem announces_of_single {φ : Type} (bar : φ → Bar) {date : φ → String} {mark : φ → Option Bool}
    (own : String) {frames closing : List φ} (hown : ∀ f ∈ frames, (bar f).symbol = own)
    (h : Announces date mark frames closing) (symbol : String) :
    Announces date mark (framesOf bar symbol frames) (if symbol = own then closing else []) := by
  split_ifs with hs
  · rw [framesOf, filter_eq_self.2 fun f hf => by simp [hown f hf, hs]]
    exact h
  · rw [framesOf, filter_eq_nil_iff.2 fun f hf => by simp [hown f hf, Ne.symm hs]]
    exact .ongoing "" (by simp) (by simp)

/-- A closed Binance frame, and two Bitget intervals of one symbol, the first of which is
completed. -/
theorem bars_eq_closing_of_one_symbol :
    let first := utaFrame "BTCUSDT" (by decide) "0" (by decide) 101
    let second := utaFrame "BTCUSDT" (by decide) "0" (by decide) 102
    let third := utaFrame "BTCUSDT" (by decide) "1" (by decide) 103
    barsOf "BTCUSDT" (Binance.combinedBars [Binance.btcFrame true 101]) =
      [(Binance.btcFrame true 101).bar] ∧
    barsOf "BTCUSDT" (combinedBars .init [first, second, third]) = [second.bar] := by
  intro first second third
  have hbinance : Announces (fun f => f.bar.date) (fun f => some f.closes)
      [Binance.btcFrame true 101] [Binance.btcFrame true 101] :=
    .marked [] (by simp) (by simp) rfl (.ongoing "" (by simp) (by simp))
  have hbitget : Announces KlineFrame.date KlineFrame.confirm [first, second, third] [second] :=
    .unmarked [first] (by simp [first, second, utaFrame, KlineFrame.date])
      (by simp [first, utaFrame, KlineFrame.confirm]) rfl (by decide)
      (.ongoing "1" (by simp [third, utaFrame, KlineFrame.date])
        (by simp [third, utaFrame, KlineFrame.confirm]))
  have hstep : InStep [first, second, third] :=
    inStep_of_single "BTCUSDT" (by
      simp [first, second, third, utaFrame, KlineFrame.confirm])
  obtain ⟨hiff, hif, -⟩ := bars_eq_closing_iff
    (announces_of_single Binance.KlineFrame.bar "BTCUSDT" (by simp [Binance.btcFrame]) hbinance)
    (announces_of_single KlineFrame.bar "BTCUSDT" (by simp [first, second, third, utaFrame])
      hbitget)
  exact ⟨(hiff.2 (by simp [Binance.btcFrame, Binance.KlineFrame.closes]) "BTCUSDT").2,
    (hif hstep "BTCUSDT").2⟩

/-- An update of an open Binance candle is delivered as a bar, and so are two open Bitget candles of
different symbols. -/
theorem bars_ne_closing_of_update :
    let update := Binance.btcFrame false 99
    let close := Binance.btcFrame true 101
    let btc := utaFrame "BTCUSDT" (by decide) "0" (by decide) 101
    let eth := utaFrame "ETHUSDT" (by decide) "1" (by decide) 50
    (Announces (fun f => f.bar.date) (fun f => some f.closes) [update, close] [close] ∧
      barsOf "BTCUSDT" (Binance.klineBars [update, close]) = [update.bar, close.bar]) ∧
    ((∀ symbol, Announces KlineFrame.date KlineFrame.confirm
        (framesOf KlineFrame.bar symbol [btc, eth, btc]) []) ∧
      klineBars .init [btc, eth, btc] = [btc.bar, eth.bar]) := by
  intro update close btc eth
  refine ⟨⟨.marked [update] (by simp [update, close, Binance.btcFrame])
    (by simp [update, Binance.btcFrame, Binance.KlineFrame.closes]) rfl
    (.ongoing "" (by simp) (by simp)), ?_⟩, fun symbol => ?_, rfl⟩
  · rw [Binance.klineBars_eq]
    rfl
  · have hframes : ∀ f ∈ framesOf KlineFrame.bar symbol [btc, eth, btc],
        f.date = (if symbol = "BTCUSDT" then "0" else "1") ∧ f.confirm ≠ some true := by
      intro f hf
      obtain ⟨hmem, hs⟩ := mem_filter.1 hf
      rw [decide_eq_true_eq] at hs
      rw [← hs]
      rcases (by simpa using hmem : f = btc ∨ f = eth ∨ f = btc) with rfl | rfl | rfl <;>
        exact ⟨rfl, nofun⟩
    exact .ongoing _ (fun f hf => (hframes f hf).1) fun f hf => (hframes f hf).2

end TrueTest
