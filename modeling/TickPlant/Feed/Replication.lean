/-
# The books follow the exchanges

Four clients and the FIX simulator write into one engine.  Each client keeps books of its own for
the quotes it shows (Binance's does not), and hands what it reads to the engine, so a book of an
exchange is held three times: by the exchange, by the client and by the engine.

Here the exchanges are part of the system.  They publish books, as messages that carry full books
and changes of books, in any order and for any symbols, between messages of other kinds.  In every
run both copies show what the exchange has published last, a book is there exactly if a full one has
been published, and the quotes shown are the best prices of the published books, one for one and in
order.

A client is the only one that touches its own books, and the engine's books are changed under a
mutex; the messages are handled one after the other.
-/
import TickPlant.Feed.Market
import TickPlant.Lib.Run
import TickPlant.Report.Symbols

namespace TickPlant

open Lib

/-! ## The exchanges -/

/-- An exchange publishes a book. -/
structure Publication where
  exchange : Exchange
  symbol : Bytes
  market : Market
  /-- When its message is read. -/
  atMs : ℕ
  /-- Whether the message is a full book or names a level. -/
  news : Bool

namespace Publication

/-- Which book it is. -/
def key (p : Publication) : Exchange × Bytes := (p.exchange, p.symbol)

/-- The client has a quote to show: Binance's needs both sides, the others one. -/
def IsQuoted (p : Publication) : Prop :=
  match p.exchange with
  | .binance => p.market.HasSide .bid ∧ p.market.HasSide .ask
  | .client _ => p.market.HasSide .bid ∨ p.market.HasSide .ask

/-- The ticker has the best quotes of the book. -/
structure QuotedBy (p : Publication) (t : TickerData) : Prop where
  exchange : t.exchange = p.exchange.name
  symbol : t.symbol = p.symbol
  timestampMs : t.timestampMs = p.atMs
  quotes : p.market.Quotes t

end Publication

/-- The book that an exchange has published last for a symbol. -/
def current (published : List Publication) (x : Exchange) (symbol : Bytes) : Option Market :=
  (lastNaming Publication.key (x, symbol) published).map Publication.market

/-- The time of the last message with news of a book. -/
def lastNews (published : List Publication) (x : Exchange) (symbol : Bytes) : Option ℕ :=
  (lastNaming Publication.key (x, symbol) (published.filter fun p => p.news)).map Publication.atMs

lemma current_concat (published : List Publication) (x x' : Exchange) (symbol symbol' : Bytes)
    (m : Market) (atMs : ℕ) (news : Bool) :
    current (published ++ [⟨x, symbol, m, atMs, news⟩]) x' symbol' =
      if (x, symbol) = (x', symbol') then some m else current published x' symbol' := by
  rw [current, lastNaming_concat, Publication.key]
  split_ifs <;> rfl

lemma lastNews_concat (published : List Publication) (x x' : Exchange) (symbol symbol' : Bytes)
    (m : Market) (atMs : ℕ) (news : Bool) :
    lastNews (published ++ [⟨x, symbol, m, atMs, news⟩]) x' symbol' =
      if news = true ∧ (x, symbol) = (x', symbol') then some atMs
      else lastNews published x' symbol' := by
  rw [lastNews, List.filter_append]
  cases news with
  | false => simp [lastNews]
  | true =>
    rw [List.filter_cons_of_pos rfl, List.filter_nil, lastNaming_concat, Publication.key]
    simp only [true_and]
    split_ifs <;> rfl

/-- The batch is a full book or names a level. -/
def Batch.news (batch : Batch) : Bool :=
  batch.isSnapshot || !batch.bids.isEmpty || !batch.asks.isEmpty

/-- The batch reports that the exchange's book has become `m`. -/
structure Exchange.Reports (x : Exchange) (batch : Batch) (before : Option Market) (m : Market) :
    Prop where
  reports : BatchReports batch.isSnapshot (batch.bids.map toLevel) (batch.asks.map toLevel)
    before m
  /-- Binance sends full books, best level first. -/
  binance : x = .binance → batch.isSnapshot = true ∧
    Levels.Ascending bidCmp (batch.bids.map toLevel) ∧
    Levels.Ascending askCmp (batch.asks.map toLevel)
  /-- The clients of Kraken and Coinbase do not hand on a batch without levels. -/
  nonempty : x = .client .kraken ∨ x = .client .coinbase → batch.isSnapshot = true →
    batch.bids ≠ [] ∨ batch.asks ≠ []

/-- The batches of a message report what the exchange publishes, one after the other. -/
inductive Publishes (x : Exchange) (atMs : ℕ) :
    List Publication → List Batch → List Publication → Prop
  | nil (published : List Publication) : Publishes x atMs published [] published
  | cons {published published' : List Publication} {batch : Batch} {batches : List Batch}
      {m : Market} :
      x.Reports batch (current published x batch.symbol) m →
      Publishes x atMs (published ++ [⟨x, batch.symbol, m, atMs, batch.news⟩]) batches published' →
      Publishes x atMs published (batch :: batches) published'

/-! ## The program -/

/-- The tickers among the callbacks. -/
def tickersOf (calls : List CoinbaseWebSocketClient.Callback) : List TickerData :=
  calls.filterMap fun
    | .message t => some t
    | .depth _ => none

/-- The clients with their books, the engine, and the callbacks made so far. -/
structure Feeds where
  localBooks : Exchange → BookMap
  engine : ArbitrageEngine
  calls : List CoinbaseWebSocketClient.Callback

namespace Feeds

/-- Before anything is received. -/
def start : Feeds := ⟨fun _ => ∅, .new true, []⟩

/-- What the client of an exchange works on. -/
def clientState (s : Feeds) (x : Exchange) : ClientState := ⟨s.localBooks x, s.engine, s.calls⟩

/-- After it has worked. -/
def put (s : Feeds) (x : Exchange) (c : ClientState) : Feeds :=
  ⟨Function.update s.localBooks x c.localBooks, c.engine, c.calls⟩

/-- `on_read`: an exception is caught, and what has been done stays. -/
def onRead (env : ParserEnv) (x : Exchange) (text : Bytes) (s : Feeds) : Feeds :=
  s.put x (exec (x.parseDepthMessage env text) (s.clientState x)).2

/-- `update_fix_data`, from the simulator's callback. -/
def onFix (nowNs : ℕ) (msg : FIXMessage) (s : Feeds) : Feeds :=
  { s with engine := s.engine.updateFixData nowNs msg }

end Feeds

/-- What arrives, with the reading of the clock. -/
inductive Arrival
  | message (x : Exchange) (nowNs : ℕ) (text : Bytes)
  | fix (nowNs : ℕ) (msg : FIXMessage)

/-- The exchanges, with all that they have published, and the program. -/
structure World where
  published : List Publication
  feeds : Feeds

section

variable (parse : Bytes → Option JsonValue) (stod : Bytes → Option ℚ) (sort : PriceSort)

/-- Something arrives. -/
inductive World.Step : World → Arrival → World → Prop
  | book {w : World} {x : Exchange} {nowNs : ℕ} {text : Bytes} {j : JsonValue}
      {batches : List Batch} {published : List Publication} :
      parse text = some j → x.Carries stod j batches →
      Publishes x (nowNs / 1000000) w.published batches published →
      Step w (.message x nowNs text)
        ⟨published, w.feeds.onRead ⟨parse, stod, sort, nowNs⟩ x text⟩
  | silent {w : World} {x : Exchange} {nowNs : ℕ} {text : Bytes} {j : JsonValue} :
      parse text = some j → x.Silent j →
      Step w (.message x nowNs text)
        { w with feeds := w.feeds.onRead ⟨parse, stod, sort, nowNs⟩ x text }
  | malformed {w : World} {x : Exchange} {nowNs : ℕ} {text : Bytes} :
      parse text = none →
      Step w (.message x nowNs text)
        { w with feeds := w.feeds.onRead ⟨parse, stod, sort, nowNs⟩ x text }
  | fix {w : World} (nowNs : ℕ) (msg : FIXMessage) :
      Step w (.fix nowNs msg) { w with feeds := w.feeds.onFix nowNs msg }

end

/-! ## The copies -/

/-- The name of a book in `ws_books_`. -/
def Exchange.bookName (x : Exchange) (symbol : Bytes) : Bytes := x.name ++ bytes ":" ++ symbol

/-- The feeds behind the books of the engine. -/
def connected : Set Feed :=
  {f | (∃ (x : Exchange) (symbol : Bytes), f = .ws x.name symbol) ∨ ∃ symbol, f = .fix symbol}

/-- The engine has the published books, each under its name and with the time of its last news. -/
structure Mirrors (published : List Publication) (e : ArbitrageEngine) : Prop where
  books : ∀ x symbol, Option.Rel Shows (e.wsBooks.lookup (x.bookName symbol))
    (current published x symbol)
  named : e.BooksFrom connected
  dated : ∀ (x : Exchange) symbol b, e.wsBooks.lookup (x.bookName symbol) = some b →
    lastNews published x symbol = some b.lastUpdateMs

/-- The program follows the exchanges. -/
structure InStep (published : List Publication) (s : Feeds) : Prop where
  engine : Mirrors published s.engine
  client : ∀ venue symbol, Option.Rel Shows ((s.localBooks (.client venue)).lookup symbol)
    (current published (.client venue) symbol)
  tickers : open Classical in
    List.Forall₂ Publication.QuotedBy (published.filter fun p => p.IsQuoted) (tickersOf s.calls)

/-- Different books have different names. -/
lemma bookName_injective {x x' : Exchange} {symbol symbol' : Bytes}
    (h : x.bookName symbol = x'.bookName symbol') : x = x' ∧ symbol = symbol' := by
  have hcolon : ∀ x : Exchange, (58 : UInt8) ∉ x.name := by
    intro x
    rcases x with _ | _ | _ | _ <;> decide
  have hname := keyExchange_key (hcolon x) symbol
  have hsymbol := keySymbol_key (hcolon x) symbol
  rw [← Exchange.bookName, h, Exchange.bookName] at hname hsymbol
  rw [keyExchange_key (hcolon x')] at hname
  rw [keySymbol_key (hcolon x')] at hsymbol
  refine ⟨?_, hsymbol.symm⟩
  rcases x with _ | _ | _ | _ <;> rcases x' with _ | _ | _ | _ <;>
    first | rfl | exact absurd hname (by decide)

section

variable {published : List Publication} {x : Exchange} {batch : Batch} {m : Market}
  {env : ParserEnv} {atMs : ℕ} {news : Bool}

lemma showsBefore_of_rel {o : Option OrderBook} {before : Option Market}
    (h : Option.Rel Shows o before) (symbol exchange : Bytes) :
    ShowsBefore (o.getD (OrderBook.new symbol exchange)) before := by
  cases h with
  | some h => exact ⟨h.bids, h.asks⟩
  | none => exact ⟨funext Levels.find_empty, funext Levels.find_empty⟩

lemma OrderBook.lastUpdateMs_foldl {α : Type} {f : OrderBook → α → OrderBook} {now : ℕ}
    (hf : ∀ b a, (f b a).lastUpdateMs = now) (as : List α) (b : OrderBook) :
    (as.foldl f b).lastUpdateMs = if as.isEmpty then b.lastUpdateMs else now := by
  induction as using List.reverseRecOn with
  | nil => rfl
  | append_singleton as a _ =>
    rw [List.foldl_append, List.foldl_cons, List.foldl_nil, hf, if_neg (by simp)]

/-- A batch with news leaves its time in the book. -/
lemma OrderBook.lastUpdateMs_applyBatch (now : ℕ) (snap : OrderBookSnapshot) (b : OrderBook) :
    (b.applyBatch now snap).lastUpdateMs =
      if snap.isSnapshot || !snap.bids.isEmpty || !snap.asks.isEmpty then now
      else b.lastUpdateMs := by
  have hset : ∀ side (b : OrderBook) l, (setSnapshotLevel now side b l).lastUpdateMs = now :=
    fun _ _ _ => rfl
  have hchange : ∀ side (b : OrderBook) l, (applyDeltaLevel now side b l).lastUpdateMs = now := by
    intro side b l
    rw [applyDeltaLevel]
    split_ifs <;> rfl
  have hclear : (b.clear now).lastUpdateMs = now := rfl
  rw [applyBatch]
  cases hsnap : snap.isSnapshot with
  | true =>
    rw [if_pos rfl, replaceAll, lastUpdateMs_foldl (hset .ask), lastUpdateMs_foldl (hset .bid),
      hclear]
    simp
  | false =>
    have hprune : (b.applyDelta now snap).pruneCrossed.lastUpdateMs =
        (b.applyDelta now snap).lastUpdateMs := rfl
    rw [if_neg (by simp), hprune, applyDelta, lastUpdateMs_foldl (hchange .ask),
      lastUpdateMs_foldl (hchange .bid)]
    cases snap.bids.isEmpty <;> cases snap.asks.isEmpty <;> rfl

/-- What the client builds from a batch reports the same. -/
lemma Exchange.Reports.snapshot (h : x.Reports batch (current published x batch.symbol) m)
    (env : ParserEnv) :
    BatchReports (x.snapshot env batch).isSnapshot (x.snapshot env batch).bids
      (x.snapshot env batch).asks (current published x batch.symbol) m := by
  obtain ⟨⟨hknown, hbids, hasks⟩, hbinance, -⟩ := h
  rcases x with _ | _ | _ | _
  · obtain ⟨hfull, -, -⟩ := hbinance rfl
    rw [hfull] at hbids hasks
    have hb := List.filter_eq_self.mpr fun l hl => decide_eq_true (hbids.pos hl)
    have ha := List.filter_eq_self.mpr fun l hl => decide_eq_true (hasks.pos hl)
    refine ⟨hknown, ?_, ?_⟩
    · simpa only [Exchange.snapshot, Exchange.arrange, hfull, hb] using hbids
    · simpa only [Exchange.snapshot, Exchange.arrange, hfull, ha] using hasks
  · exact ⟨hknown, hbids, hasks⟩
  · exact ⟨hknown, hbids.perm (env.sort.bids_perm _), hasks.perm (env.sort.asks_perm _)⟩
  · exact ⟨hknown, hbids.perm (env.sort.bids_perm _), hasks.perm (env.sort.asks_perm _)⟩

/-- The client's batch has news if the exchange's has. -/
lemma Exchange.Reports.news_snapshot (h : x.Reports batch (current published x batch.symbol) m) :
    ((x.snapshot env batch).isSnapshot || !(x.snapshot env batch).bids.isEmpty ||
      !(x.snapshot env batch).asks.isEmpty) = batch.news := by
  have hperm : ∀ {ls ls' : List PriceLevel}, ls.Perm ls' → ls.isEmpty = ls'.isEmpty :=
    fun h => by
      rw [Bool.eq_iff_iff, List.isEmpty_iff_length_eq_zero, List.isEmpty_iff_length_eq_zero,
        h.length_eq]
  rcases x with _ | _ | _ | _
  · rw [Batch.news, Exchange.snapshot, (h.binance rfl).1]
    simp
  · rw [Batch.news, Exchange.snapshot]
    simp [Exchange.arrange]
  · rw [Batch.news, Exchange.snapshot]
    simp only [Exchange.arrange, hperm (env.sort.bids_perm _), hperm (env.sort.asks_perm _),
      List.isEmpty_map]
  · rw [Batch.news, Exchange.snapshot]
    simp only [Exchange.arrange, hperm (env.sort.bids_perm _), hperm (env.sort.asks_perm _),
      List.isEmpty_map]

/-- A batch that the clients of Kraken and Coinbase do not hand on is no full book. -/
lemma Exchange.Reports.isSnapshot_eq_false
    (h : x.Reports batch (current published x batch.symbol) m)
    (hempty : batch.bids = [] ∧ batch.asks = [])
    (hx : x = .client .kraken ∨ x = .client .coinbase) :
    batch.isSnapshot = false := by
  by_contra hfull
  rw [Bool.not_eq_false] at hfull
  exact (h.nonempty hx hfull).elim (· hempty.1) (· hempty.2)

lemma Exchange.Reports.news_eq_false (h : x.Reports batch (current published x batch.symbol) m)
    (hempty : batch.bids = [] ∧ batch.asks = [])
    (hx : x = .client .kraken ∨ x = .client .coinbase) :
    batch.news = false := by
  rw [Batch.news, h.isSnapshot_eq_false hempty hx, hempty.1, hempty.2]
  rfl

/-- It changes nothing. -/
lemma Exchange.Reports.level_eq (h : x.Reports batch (current published x batch.symbol) m)
    (hempty : batch.bids = [] ∧ batch.asks = [])
    (hx : x = .client .kraken ∨ x = .client .coinbase) :
    ∃ m₀, current published x batch.symbol = some m₀ ∧ ∀ b, Shows b m₀ → Shows b m := by
  have hdelta := h.isSnapshot_eq_false hempty hx
  obtain ⟨⟨hknown, hbids, hasks⟩, -, -⟩ := h
  obtain ⟨m₀, hm₀⟩ := Option.isSome_iff_exists.mp (hknown hdelta)
  rw [hdelta, hempty.1, hm₀] at hbids
  rw [hdelta, hempty.2, hm₀] at hasks
  refine ⟨m₀, hm₀, fun b hb => ⟨?_, ?_⟩⟩
  · rw [hb.bids, hbids.level_eq]
    rfl
  · rw [hb.asks, hasks.level_eq]
    rfl

/-! ## One batch -/

/-- A copy of a book, with one publication more: it shows that one or has not changed. -/
lemma rel_concat {o o' : Option OrderBook} {x' : Exchange} {symbol symbol' : Bytes}
    (h : Option.Rel Shows o (current published x' symbol'))
    (hnew : (x, symbol) = (x', symbol') → ∃ b, o' = some b ∧ Shows b m)
    (hother : (x, symbol) ≠ (x', symbol') → o' = o) :
    Option.Rel Shows o' (current (published ++ [⟨x, symbol, m, atMs, news⟩]) x' symbol') := by
  rw [current_concat]
  by_cases hbook : (x, symbol) = (x', symbol')
  · obtain ⟨b, rfl, hb⟩ := hnew hbook
    rw [if_pos hbook]
    exact .some hb
  · rw [if_neg hbook, hother hbook]
    exact h

namespace Mirrors

variable {e : ArbitrageEngine}

/-- A batch that is handed on. -/
lemma update (he : Mirrors published e) (h : x.Reports batch (current published x batch.symbol) m)
    (env : ParserEnv) :
    Mirrors (published ++ [⟨x, batch.symbol, m, env.nowNs / 1000000, batch.news⟩])
      (e.updateOrderBook env.nowNs (x.snapshot env batch)).1 := by
  have hother : ∀ (x' : Exchange) symbol, (x, batch.symbol) ≠ (x', symbol) →
      (e.updateOrderBook env.nowNs (x.snapshot env batch)).1.wsBooks.lookup (x'.bookName symbol) =
        e.wsBooks.lookup (x'.bookName symbol) := by
    intro x' symbol hbook
    have hne : x'.bookName symbol ≠ bookKey (x.snapshot env batch) := by
      intro hname
      obtain ⟨rfl, rfl⟩ := bookName_injective hname
      exact hbook rfl
    exact AList.lookup_insert_ne hne
  have hself := ArbitrageEngine.lookup_updateOrderBook env.nowNs (x.snapshot env batch) e
  refine ⟨fun x' symbol => ?_, ?_, fun x' symbol b hb => ?_⟩
  · refine rel_concat (he.books x' symbol) ?_ (hother x' symbol)
    rintro ⟨⟩
    refine ⟨_, hself, shows_applyBatch (h.snapshot env) _ ?_⟩
    exact showsBefore_of_rel (he.books x batch.symbol) _ _
  · refine he.named.apply env.nowNs (c := .ws (x.snapshot env batch)) ?_
    rintro f ⟨⟩
    exact Or.inl ⟨x, batch.symbol, rfl⟩
  · rw [lastNews_concat]
    by_cases hbook : (x, batch.symbol) = (x', symbol)
    · cases hbook
      obtain rfl := Option.some.inj (hself.symm.trans hb)
      rw [OrderBook.lastUpdateMs_applyBatch, h.news_snapshot]
      cases hnews : batch.news with
      | true => simp
      | false =>
        -- changes that name no level: the book was there before
        have hdelta : batch.isSnapshot = false := by
          rw [Batch.news, Bool.or_eq_false_iff, Bool.or_eq_false_iff] at hnews
          exact hnews.1.1
        obtain ⟨m₀, hm₀⟩ := Option.isSome_iff_exists.mp (h.reports.known hdelta)
        have hshown := he.books x batch.symbol
        rw [hm₀] at hshown
        cases hlookup : e.wsBooks.lookup (x.bookName batch.symbol) with
        | none => rw [hlookup] at hshown; cases hshown
        | some b₀ =>
          have hsame : (e.wsBooks.lookup (bookKey (x.snapshot env batch))).getD
              (OrderBook.new (x.snapshot env batch).symbol (x.snapshot env batch).exchange) = b₀ :=
            congrArg (fun o : Option OrderBook => o.getD _) hlookup
          rw [hsame]
          simpa using he.dated x batch.symbol b₀ hlookup
    · rw [if_neg fun h => hbook h.2]
      rw [hother x' symbol hbook] at hb
      exact he.dated x' symbol b hb

/-- A batch that is not. -/
lemma skip (he : Mirrors published e) (h : x.Reports batch (current published x batch.symbol) m)
    (hempty : batch.bids = [] ∧ batch.asks = [])
    (hx : x = .client .kraken ∨ x = .client .coinbase) (atMs : ℕ) :
    Mirrors (published ++ [⟨x, batch.symbol, m, atMs, batch.news⟩]) e := by
  refine ⟨fun x' symbol => rel_concat (he.books x' symbol) ?_ fun _ => rfl, he.named,
    fun x' symbol b hb => ?_⟩
  · rintro ⟨⟩
    obtain ⟨m₀, hm₀, hsame⟩ := h.level_eq hempty hx
    have hold := he.books x batch.symbol
    rw [hm₀] at hold
    cases hlookup : e.wsBooks.lookup (x.bookName batch.symbol) with
    | none => rw [hlookup] at hold; cases hold
    | some b =>
      rw [hlookup] at hold
      cases hold with
      | some hb => exact ⟨b, rfl, hsame b hb⟩
  · rw [lastNews_concat, h.news_eq_false hempty hx, if_neg (by simp)]
    exact he.dated x' symbol b hb

/-- A message of the simulator. -/
lemma fix (he : Mirrors published e) (nowNs : ℕ) (msg : FIXMessage) :
    Mirrors published (e.updateFixData nowNs msg) := by
  have hws : (e.updateFixData nowNs msg).wsBooks = e.wsBooks := by
    rw [ArbitrageEngine.updateFixData]
    split_ifs <;> rfl
  refine ⟨by rw [hws]; exact he.books, ?_, by rw [hws]; exact he.dated⟩
  refine he.named.apply nowNs (c := .fix msg) fun f hf => ?_
  rw [EngineCall.feed?] at hf
  split_ifs at hf
  · exact Or.inr ⟨msg.symbol, (Option.some.inj hf).symm⟩
  · cases hf

end Mirrors

open Classical in
/-- The tickers shown, with one publication more. -/
lemma tickers_concat {shown new : List TickerData} {p : Publication}
    (hshown : List.Forall₂ Publication.QuotedBy
      (published.filter fun p => p.IsQuoted) shown)
    (hnew : (¬ p.IsQuoted ∧ new = []) ∨ (p.IsQuoted ∧ ∃ t, new = [t] ∧ p.QuotedBy t)) :
    List.Forall₂ Publication.QuotedBy ((published ++ [p]).filter fun p => p.IsQuoted)
      (shown ++ new) := by
  rw [List.filter_append]
  rcases hnew with ⟨hno, rfl⟩ | ⟨hyes, t, rfl, ht⟩
  · rw [List.filter_cons_of_neg (by simpa using hno)]
    simpa using hshown
  · rw [List.filter_cons_of_pos (by simpa using hyes)]
    exact List.rel_append hshown (.cons ht .nil)

end

lemma tickersOf_append (calls calls' : List CoinbaseWebSocketClient.Callback) :
    tickersOf (calls ++ calls') = tickersOf calls ++ tickersOf calls' := List.filterMap_append

lemma tickersOf_callsFor (venue : Venue) (nowMs : ℕ) (snap : OrderBookSnapshot)
    (book : OrderBook) :
    tickersOf (ClientState.callsFor venue nowMs snap book) =
      if book.getSnapshot.isEmpty then []
      else [{ CoinbaseWebSocketClient.bboTicker snap.symbol nowMs book.getSnapshot with
        exchange := venue.name }] := by
  rw [ClientState.callsFor, tickersOf_append]
  have hdepth : tickersOf (if venue.handsOn snap then [.depth snap] else []) = [] := by
    split_ifs <;> rfl
  rw [hdepth, List.nil_append]
  dsimp only
  split_ifs <;> rfl

/-- A batch that the client does not hand on has no levels. -/
lemma empty_of_not_handsOn {venue : Venue} {env : ParserEnv} {batch : Batch}
    (h : venue.handsOn ((Exchange.client venue).snapshot env batch) = false) :
    batch.bids = [] ∧ batch.asks = [] := by
  have hsorted : ∀ (sort : List PriceLevel → List PriceLevel) (ls : List (ℚ × ℚ)),
      (∀ l, (sort l).Perm l) → sort (ls.map toLevel) = [] → ls = [] := by
    intro sort ls hperm hnil
    have hmap := hperm (ls.map toLevel)
    rw [hnil] at hmap
    exact List.map_eq_nil_iff.mp hmap.nil_eq.symm
  cases venue with
  | bybit => cases h
  | _ =>
    rw [Venue.handsOn, Bool.not_eq_false', OrderBookSnapshot.isEmpty, Bool.and_eq_true,
      List.isEmpty_iff, List.isEmpty_iff] at h
    exact ⟨hsorted _ _ env.sort.bids_perm h.1, hsorted _ _ env.sort.asks_perm h.2⟩

namespace InStep

variable {published : List Publication} {batch : Batch} {m : Market} {s : Feeds}

/-- A batch of Bybit, Kraken or Coinbase. -/
lemma deliver_client (hs : InStep published s) {venue : Venue}
    (h : (Exchange.client venue).Reports batch (current published (.client venue) batch.symbol) m)
    (env : ParserEnv) :
    InStep (published ++ [⟨.client venue, batch.symbol, m, env.nowNs / 1000000, batch.news⟩])
      (s.put (.client venue) (ClientState.deliver venue env.nowNs
        ((Exchange.client venue).snapshot env batch) (s.clientState (.client venue)))) := by
  let snap := (Exchange.client venue).snapshot env batch
  let c := s.clientState (.client venue)
  let book := venue.apply (env.nowNs / 1000000) snap (c.bookOf venue batch.symbol)
  have hbook : Shows book m := by
    refine shows_venueApply venue (h.snapshot env) _ ?_
    exact showsBefore_of_rel (hs.client venue batch.symbol) _ _
  rw [ClientState.deliver_eq]
  constructor
  · change Mirrors _ (if venue.handsOn snap then
      (s.engine.updateOrderBook env.nowNs snap).1 else s.engine)
    split_ifs with hhands
    · exact hs.engine.update h env
    · have hvenue : venue ≠ .bybit := by
        rintro rfl
        exact hhands rfl
      refine hs.engine.skip h ?_ ?_ _
      · exact empty_of_not_handsOn (by simpa using hhands)
      · cases venue with
        | bybit => exact absurd rfl hvenue
        | kraken => exact Or.inl rfl
        | coinbase => exact Or.inr rfl
  · intro venue' symbol
    refine rel_concat (hs.client venue' symbol) ?_ fun hother => ?_
    · rintro ⟨⟩
      refine ⟨book, ?_, hbook⟩
      change (Function.update s.localBooks (.client venue) _ (.client venue)).lookup _ = _
      rw [Function.update_self]
      exact AList.lookup_insert _
    · change (Function.update s.localBooks (.client venue) _ (.client venue')).lookup _ = _
      by_cases hvenue : venue' = venue
      · subst hvenue
        rw [Function.update_self]
        refine AList.lookup_insert_ne fun hsymbol => hother ?_
        rw [hsymbol]
        rfl
      · rw [Function.update_of_ne fun hx => hvenue (Exchange.client.inj hx)]
  · change List.Forall₂ _ _ (tickersOf (s.calls ++ ClientState.callsFor venue _ snap book))
    rw [tickersOf_append, tickersOf_callsFor]
    refine tickers_concat hs.tickers ?_
    by_cases hempty : book.getSnapshot.isEmpty
    · refine Or.inl ⟨fun hquoted => ?_, if_pos hempty⟩
      rw [hbook.isEmpty_iff.mpr hquoted] at hempty
      cases hempty
    · have hquoted := hbook.isEmpty_iff.mp (by simpa using hempty)
      exact Or.inr ⟨hquoted, _, if_neg hempty, rfl, rfl, rfl, hbook.quotes _ _ _⟩

/-- A message of Binance. -/
lemma deliver_binance (hs : InStep published s)
    (h : Exchange.binance.Reports batch (current published .binance batch.symbol) m)
    (env : ParserEnv) :
    InStep (published ++ [⟨.binance, batch.symbol, m, env.nowNs / 1000000, batch.news⟩])
      (s.put .binance (BinanceWebSocketClient.deliver env.nowNs
        (Exchange.binance.snapshot env batch) (s.clientState .binance))) := by
  let snap := Exchange.binance.snapshot env batch
  have hreports := h.snapshot env
  obtain ⟨hfull, hbids, hasks⟩ := h.binance rfl
  have hsnap : snap.isSnapshot = true := hfull
  rw [hsnap] at hreports
  have hquotes := quotes_of_sorted hreports (hbids.filter _) (hasks.filter _) batch.symbol
    (bytes "Binance") (env.nowNs / 1000000)
  rw [BinanceWebSocketClient.deliver_eq]
  constructor
  · exact hs.engine.update h env
  · intro venue symbol
    refine rel_concat (hs.client venue symbol) (fun hbook => by cases hbook) fun _ => ?_
    have hne : Exchange.client venue ≠ .binance := by simp
    exact congrArg (fun books : BookMap => books.lookup symbol)
      (Function.update_of_ne hne (s.localBooks .binance) s.localBooks)
  · change List.Forall₂ _ _ (tickersOf (s.calls ++ [.depth snap] ++ _))
    rw [tickersOf_append, tickersOf_append]
    have hdepth : tickersOf [.depth snap] = [] := rfl
    rw [hdepth, List.append_nil]
    refine tickers_concat hs.tickers ?_
    have hquoted : Publication.IsQuoted
        ⟨.binance, batch.symbol, m, env.nowNs / 1000000, batch.news⟩ ↔
        snap.bids ≠ [] ∧ snap.asks ≠ [] :=
      and_congr hreports.bids.hasSide_iff hreports.asks.hasSide_iff
    by_cases hsides : snap.bids ≠ [] ∧ snap.asks ≠ []
    · rw [if_pos hsides]
      exact Or.inr ⟨hquoted.mpr hsides, _, rfl, rfl, rfl, rfl, hquotes⟩
    · rw [if_neg hsides]
      exact Or.inl ⟨fun hyes => hsides (hquoted.mp hyes), rfl⟩

/-- **One batch.** -/
lemma deliver (hs : InStep published s) {x : Exchange}
    (h : x.Reports batch (current published x batch.symbol) m) (env : ParserEnv) :
    InStep (published ++ [⟨x, batch.symbol, m, env.nowNs / 1000000, batch.news⟩])
      (s.put x (x.deliver env.nowNs (x.snapshot env batch) (s.clientState x))) := by
  cases x with
  | binance => exact hs.deliver_binance h env
  | client venue => exact hs.deliver_client h env

/-! ## Messages -/

/-- All batches of a message. -/
lemma deliverAll (hs : InStep published s) {x : Exchange} {batches : List Batch}
    {published' : List Publication} (env : ParserEnv)
    (h : Publishes x (env.nowNs / 1000000) published batches published') :
    InStep published' (s.put x ((batches.map (x.snapshot env)).foldl
      (fun c snap => x.deliver env.nowNs snap c) (s.clientState x))) := by
  induction h generalizing s with
  | nil published =>
    have hput : s.put x (s.clientState x) = s := by
      simp [Feeds.put, Feeds.clientState]
    rw [List.map_nil, List.foldl_nil, hput]
    exact hs
  | @cons published published' batch batches m hbatch _ ih =>
    have hstep := ih (hs.deliver hbatch env)
    have hstate : ∀ c : ClientState, (s.put x c).clientState x = c := by
      intro c
      simp [Feeds.put, Feeds.clientState]
    have hput : ∀ c c' : ClientState, (s.put x c).put x c' = s.put x c' := by
      intro c c'
      simp [Feeds.put]
    rw [hstate, hput] at hstep
    exact hstep

/-- Nothing has been received, and nothing published. -/
lemma start : InStep [] Feeds.start where
  engine := ⟨fun _ _ => .none, ArbitrageEngine.booksFrom_of_none fun id => by cases id <;> rfl,
    fun _ _ _ h => by cases h⟩
  client _ _ := .none
  tickers := by
    rw [List.filter_nil]
    exact .nil

variable {parse : Bytes → Option JsonValue} {stod : Bytes → Option ℚ} {sort : PriceSort}

/-- **Whatever arrives.** -/
lemma step {w w' : World} {l : Arrival} (hw : InStep w.published w.feeds)
    (h : World.Step parse stod sort w l w') : InStep w'.published w'.feeds := by
  have hput : ∀ x, w.feeds.put x (w.feeds.clientState x) = w.feeds := by
    intro x
    simp [Feeds.put, Feeds.clientState]
  cases h with
  | @book x nowNs text j batches published hparse hcarries hpublishes =>
    have hall := hw.deliverAll ⟨parse, stod, sort, nowNs⟩ hpublishes
    rw [Feeds.onRead, Exchange.exec_parse x hparse hcarries]
    exact hall
  | @silent x nowNs text j hparse hsilent =>
    rw [Feeds.onRead, Exchange.exec_parse_silent x hparse hsilent]
    exact (hput x).symm ▸ hw
  | @malformed x nowNs text hparse =>
    rw [Feeds.onRead, Exchange.exec_parse_malformed x hparse]
    exact (hput x).symm ▸ hw
  | fix nowNs msg => exact ⟨hw.engine.fix nowNs msg, hw.client, hw.tickers⟩

lemma run {w : World} {ls : List Arrival}
    (hrun : Run (World.Step parse stod sort) ⟨[], Feeds.start⟩ ls w) :
    InStep w.published w.feeds :=
  hrun.invariant (I := fun w => InStep w.published w.feeds) InStep.start
    fun _ _ _ hw hstep => hw.step hstep

end InStep

/-- **The books follow the exchanges.**  Whatever arrives in whatever order, the engine's book and
the client's show what the exchange has published last, they are there exactly if it has published
something, and the tickers shown have the best quotes of the published books, in order. -/
theorem books_follow_exchanges (parse : Bytes → Option JsonValue) (stod : Bytes → Option ℚ)
    (sort : PriceSort) (w : World) (ls : List Arrival)
    (hrun : Run (World.Step parse stod sort) ⟨[], Feeds.start⟩ ls w) :
    InStep w.published w.feeds := InStep.run hrun

/-- One bid, and one ask of quantity 2. -/
def marketAt (bid bidQty ask : ℚ) (hcross : bid < ask) (hqty : 0 < bidQty) : Market where
  qty
    | .bid, p => if p = bid then some bidQty else none
    | .ask, p => if p = ask then some 2 else none
  positive side p q h := by
    cases side <;> simp only [Option.ite_none_right_eq_some, Option.some.injEq] at h
    · exact h.2 ▸ hqty
    · exact h.2 ▸ two_pos
  uncrossed p p' h h' := by
    simp only [Option.isSome_ite] at h h'
    rw [h, h']
    exact hcross

/-- A message of Bybit. -/
def bybitDoc (type : Bytes) (bids asks : List JsonValue) : JsonValue :=
  .object [(bytes "topic", .string (bytes "orderbook.50.BTCUSDT")), (bytes "type", .string type),
    (bytes "data", .object [(bytes "b", .array bids), (bytes "a", .array asks)])]

/-- The text of such a message, with the texts of its levels. -/
def bybitText (type bids asks : Bytes) : Bytes :=
  bytes "\x7b\"topic\":\"orderbook.50.BTCUSDT\",\"type\":\"" ++ type ++
    bytes "\",\"data\":\x7b\"b\":[" ++ bids ++ bytes "],\"a\":[" ++ asks ++ bytes "]\x7d\x7d"

/-- A full book, before a change in which its bid moves from 100 to 99. -/
def fullText : Bytes :=
  bybitText (bytes "snapshot") (bytes "[\"100\",\"1\"]") (bytes "[\"101\",\"2\"]")

/-- The change. -/
def moveText : Bytes :=
  bybitText (bytes "delta") (bytes "[\"100\",\"0\"],[\"99\",\"2\"]") []

/-- A level of a message: the texts of its price and its quantity. -/
def pairOf (price qty : Bytes) : JsonValue := .array [.string price, .string qty]

/-- The full book, as the JSON library reads it. -/
def fullDoc : JsonValue :=
  bybitDoc (bytes "snapshot") [pairOf (bytes "100") (bytes "1")] [pairOf (bytes "101") (bytes "2")]

/-- The change, as the JSON library reads it. -/
def moveDoc : JsonValue :=
  bybitDoc (bytes "delta") [pairOf (bytes "100") (bytes "0"), pairOf (bytes "99") (bytes "2")] []

/-- The calls of the JSON library for these messages. -/
def parseTexts (t : Bytes) : Option JsonValue :=
  if t = fullText then some fullDoc else if t = moveText then some moveDoc else none

/-- The readings of `std::stod` for the numbers of these messages. -/
def stodTexts (t : Bytes) : Option ℚ :=
  if t = bytes "0" then some 0
  else if t = bytes "1" then some 1
  else if t = bytes "2" then some 2
  else if t = bytes "99" then some 99
  else if t = bytes "100" then some 100
  else if t = bytes "101" then some 101
  else none

/-- The batch that the full book carries. -/
def fullBatch : Batch := ⟨bytes "BTCUSDT", true, [(100, 1)], [(101, 2)]⟩

/-- The batch that the change carries. -/
def moveBatch : Batch := ⟨bytes "BTCUSDT", false, [(100, 0), (99, 2)], []⟩

lemma textLevel_pairOf {price qty : Bytes} {p q : ℚ} (hp : stodTexts price = some p)
    (hq : stodTexts qty = some q) : TextLevel stodTexts (pairOf price qty) (p, q) :=
  ⟨price, qty, [], rfl, hp, hq⟩

lemma carries_full : BybitWebSocketClient.Carries stodTexts fullDoc fullBatch where
  op := by decide
  topic := rfl
  type := rfl
  data := ⟨_, rfl, ⟨_, rfl, .cons (textLevel_pairOf rfl rfl) .nil⟩,
    ⟨_, rfl, .cons (textLevel_pairOf rfl rfl) .nil⟩⟩

lemma carries_move : BybitWebSocketClient.Carries stodTexts moveDoc moveBatch where
  op := by decide
  topic := rfl
  type := rfl
  data := ⟨_, rfl, ⟨_, rfl, .cons (textLevel_pairOf rfl rfl)
    (.cons (textLevel_pairOf rfl rfl) .nil)⟩, ⟨_, rfl, .nil⟩⟩

/-- The book of the exchange before the change. -/
def fullMarket : Market := marketAt 100 1 101 (by norm_num) (by norm_num)

/-- The book of the exchange after it. -/
def moveMarket : Market := marketAt 99 2 101 (by norm_num) (by norm_num)

lemma reports_full : (Exchange.client .bybit).Reports fullBatch none fullMarket where
  reports := by
    refine ⟨by decide, ⟨by decide +kernel, ?_, ?_⟩, by decide +kernel, ?_, ?_⟩ <;>
      simp [fullBatch, toLevel, resting, fullMarket, marketAt, Market.level, eq_comm]
  binance h := by cases h
  nonempty h := by rcases h with ⟨⟨⟩⟩ | ⟨⟨⟩⟩

lemma reports_move :
    (Exchange.client .bybit).Reports moveBatch (some fullMarket) moveMarket where
  reports := by
    refine ⟨fun _ => rfl, ⟨?_, ?_⟩, ?_, ?_⟩
    · simp [moveBatch, toLevel, resting, moveMarket, marketAt, Market.level]
    · simp only [moveBatch, toLevel, moveMarket, fullMarket, marketAt, Market.level,
        Market.levelBefore, List.map_cons, List.map_nil, List.mem_cons, List.not_mem_nil, or_false,
        forall_eq_or_imp, forall_eq]
      rintro p ⟨h100, h99⟩
      rw [if_neg (Ne.symm h99), if_neg (Ne.symm h100)]
    · simp [moveBatch]
    · intro p _
      rfl
  binance h := by cases h
  nonempty h := by rcases h with ⟨⟨⟩⟩ | ⟨⟨⟩⟩

/-- Bybit's book is published and then changed: both copies have the bid at 99. -/
theorem books_follow_exchanges_move :
    InStep [⟨.client .bybit, bytes "BTCUSDT", fullMarket, 1, true⟩,
        ⟨.client .bybit, bytes "BTCUSDT", moveMarket, 2, true⟩]
      ((Feeds.start.onRead ⟨parseTexts, stodTexts, FeedState.mergeSorts, 1000000⟩
          (.client .bybit) fullText).onRead
        ⟨parseTexts, stodTexts, FeedState.mergeSorts, 2000000⟩ (.client .bybit) moveText) := by
  have hfull : parseTexts fullText = some fullDoc := if_pos rfl
  have hmove : parseTexts moveText = some moveDoc :=
    (if_neg (by decide +kernel)).trans (if_pos rfl)
  refine books_follow_exchanges parseTexts stodTexts FeedState.mergeSorts ⟨_, _⟩
    [.message (.client .bybit) 1000000 fullText, .message (.client .bybit) 2000000 moveText] ?_
  refine .cons (.book hfull ⟨fullBatch, rfl, carries_full⟩ (.cons reports_full (.nil _))) ?_
  exact .single (.book hmove ⟨moveBatch, rfl, carries_move⟩ (.cons reports_move (.nil _)))

end TickPlant
