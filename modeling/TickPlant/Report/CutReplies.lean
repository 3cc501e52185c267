/-
# Replies that are cut short

`send_command` returns what it has read when the connection fails, so a `RemoteDataSource` may
be given an initial part of a reply.  The sources rely on the JSON library to notice: a part of
an object is not a JSON text (`Json.eq_of_prefix`).  So `resolve` reports the node unreachable
and `fetch` skips the symbol, and neither ever works with a part of a reply.
-/
import TickPlant.Lib.JsonPrefix
import TickPlant.Server.Clients
import TickPlant.Report.Fetch
import TickPlant.Report.WellFormed

namespace TickPlant

open Lib

/-- The library accepts no object that is not well-formed.  A zero byte is the end of its input,
so this is about texts without one. -/
def RejectsMalformed (parse : Bytes → Option JsonValue) : Prop :=
  ∀ t j, (0 : UInt8) ∉ t → parse t = some j → t.head? = some 123 → IsJson t

/-- A good document has no newline and no other control byte. -/
lemma not_mem_render_of_good {j : Json} (h : j.Good) {b : UInt8} (hb : b < 32) : b ∉ j.render := by
  have hcontent : Json.IsContent b := by
    have hmarks : ∀ c ∈ ([34, 44, 58, 91, 93, 123, 125] : List UInt8), ¬ c < 32 := by decide +kernel
    exact fun hmem => hmarks b hmem hb
  refine (Json.not_mem_render hcontent j).mpr ?_
  exact Json.All.mono (fun _ hs => hs.no_control hb) (fun _ ht => isAtom_no_control ht hb) j h

lemma oneLine_of_good {j : Json} (h : j.Good) : OneLine (j.render ++ [newline]) :=
  (oneLine_append_iff j.render).mpr (not_mem_render_of_good h (by decide))

/-- A part of a reply is the whole document, or cannot be read. -/
lemma parse_cut {parse : Bytes → Option JsonValue} (hparse : RejectsMalformed parse)
    {members : List (Bytes × Json)} (hgood : (Json.obj members).Good) {resp : Bytes}
    (hresp : resp ≠ []) (hnot : newline ∉ resp)
    (hpre : resp <+: (Json.obj members).render ++ [newline]) :
    parse resp = none ∨ resp = (Json.obj members).render := by
  cases hread : parse resp with
  | none => exact Or.inl rfl
  | some j =>
    rcases List.prefix_concat_iff.mp hpre with rfl | hpre
    · exact absurd (List.mem_append_right _ (List.mem_singleton_self newline)) hnot
    · have hhead : resp.head? = some 123 := by
        obtain ⟨b, rest, rfl⟩ := List.exists_cons_of_ne_nil hresp
        rw [Json.render, List.cons_prefix_cons] at hpre
        rw [hpre.1]
        rfl
      have hzero : (0 : UInt8) ∉ resp := fun hmem =>
        not_mem_render_of_good hgood (by decide) (hpre.subset hmem)
      exact Or.inr (Json.eq_of_prefix hgood (hparse resp j hzero hread hhead) hpre)

/-- What a call has returned, for a command whose reply is a document. -/
lemma returned_cut {S : ServerConn queryService} {cmd : Bytes}
    {ls : List (S.Label ⊕ (SendCommand.program cmd).Label)} {x : Link S (SendCommand.program cmd)}
    (hrun : Run Link.Step (.init S (SendCommand.program cmd)) ls x) (hcmd : newline ∉ cmd)
    {resp : Bytes} (hdone : x.client = .done resp) {parse : Bytes → Option JsonValue}
    (hparse : RejectsMalformed parse)
    (hdoc : ∀ c ∈ (S.log x.server).calls, ∃ members, (Json.obj members).Good ∧
      handleLine c.1 (cString cmd) = (Json.obj members).render ++ [newline]) :
    resp = [] ∨ parse resp = none ∨ ∃ e, (S.log x.server).calls = [(e, cString cmd)] ∧
      resp ++ [newline] = handleLine e (cString cmd) := by
  by_cases hresp : resp = []
  · exact Or.inl hresp
  · obtain ⟨e, hcalls, hpre, hheard⟩ := SendCommand.answered hrun hcmd hdone hresp
    obtain ⟨members, hgood, hreply⟩ := hdoc (e, cString cmd) (by simp [hcalls])
    have hone : OneLine (handleLine e (cString cmd)) := hreply ▸ oneLine_of_good hgood
    obtain ⟨hnot, hpart, -⟩ := hone.stripped hpre hheard
    rw [hreply] at hpart
    rcases parse_cut hparse hgood hresp hnot hpart with hnone | heq
    · exact Or.inr (Or.inl hnone)
    · exact Or.inr (Or.inr ⟨e, hcalls, by rw [heq, hreply]⟩)

/-! ## A connection that fails -/

/-- The simple server receives a request in one piece and answers it. -/
lemma Simple.step_request {E : Type} (sv : Service E) (e : E) {cmd : Bytes} (hlen : cmd.length ≤ 510)
    (hline : newline ∉ cmd) (hzero : cString cmd = cmd) :
    ∃ s, Simple.LosslessStep sv (.new .empty) (.recv (cmd ++ [newline]) e 0) s ∧
      s.log = ⟨[(e, cmd)], sv.reply e cmd, [cmd ++ [newline]]⟩ := by
  obtain ⟨b, hrecv⟩ : ∃ b, LineBuffer.empty.clear.recv (cmd ++ [newline]) = some b := by
    refine ⟨_, dif_pos ⟨by simp, ?_⟩⟩
    simp only [List.length_append, List.length_singleton, LineBuffer.room, LineBuffer.clear]
    omega
  have hvalid : b.terminate.valid = cmd ++ [newline] := by
    rw [LineBuffer.valid_terminate, (LineBuffer.valid_recv hrecv).1]
    rfl
  have hsplit : splitLine b.terminate.valid = some (cmd, []) := by
    rw [hvalid]
    exact splitLine_append hline []
  obtain ⟨⟨line, rest⟩, htake⟩ : ∃ x, b.terminate.takeLine = some x := by
    cases htake : b.terminate.takeLine with
    | none => exact absurd (hsplit.symm.trans (LineBuffer.takeLine_eq_none htake)) (by simp)
    | some x => exact ⟨x, rfl⟩
  obtain ⟨raw, hraw, rfl⟩ := LineBuffer.takeLine_eq_some htake
  obtain rfl : raw = cmd := (Prod.mk.inj (Option.some.inj (hraw.symm.trans hsplit))).1
  refine ⟨⟨rest, false, ((Log.empty.receive (raw ++ [newline])).call e (cString raw)).accept
    (sv.reply e (cString raw))⟩, ⟨?_, rfl⟩, ?_⟩
  · simp [Simple.Step, Simple.step, Simple.Client.new, hrecv, htake]
  · simp [Log.accept, Log.call, Log.receive, Log.empty, hzero]

/-- The client has read the first `n` bytes of the reply when the connection fails. -/
lemma run_cut (e : QueryEnv) (cmd : Bytes) (hlen : cmd.length ≤ 510) (hline : newline ∉ cmd)
    (hzero : cString cmd = cmd) {n : ℕ} {resp : Bytes} (hresp : (handleLine e cmd).take n = resp)
    (hn : resp ≠ [] ∧ resp.length ≤ 4096 ∧ resp.getLast? ≠ some newline) :
    ∃ (ls : _) (x : Link (simpleConn queryService .empty) (SendCommand.program cmd)),
      Run Link.Step (.init (simpleConn queryService .empty) (SendCommand.program cmd)) ls x ∧
        x.client = .done resp ∧
        ((simpleConn queryService .empty).log x.server).calls = [(e, cmd)] := by
  obtain ⟨s, hanswer, hlog⟩ := Simple.step_request queryService e hlen hline hzero
  obtain ⟨hne, hmax, hlast⟩ := hn
  have hreply : handleLine e cmd = resp ++ (handleLine e cmd).drop n := by
    rw [← hresp, List.take_append_drop]
  have hsent : SendCommand.step cmd .sending (.sent (cmd ++ [newline]).length) =
      some (.receiving [], cmd ++ [newline], []) := by
    simp [SendCommand.step]
  have hread : SendCommand.step cmd (.receiving []) (.data resp) =
      some (.receiving resp, [], resp) := by
    simp [SendCommand.step, hne, hmax, hlast]
  have hfail : SendCommand.step cmd (.receiving resp) .failed = some (.done resp, [], []) := by
    simp [SendCommand.step, SendCommand.strip, hlast]
  -- the states of the run: connected, sent, answered, read in part, failed
  let x₀ : Link (simpleConn queryService .empty) (SendCommand.program cmd) :=
    ⟨.new .empty, SendCommand.State.sending, [], [], [], []⟩
  let x₁ : Link (simpleConn queryService .empty) (SendCommand.program cmd) :=
    ⟨.new .empty, SendCommand.State.receiving [], cmd ++ [newline], [], cmd ++ [newline], []⟩
  let x₂ : Link (simpleConn queryService .empty) (SendCommand.program cmd) :=
    ⟨s, SendCommand.State.receiving [], [], handleLine e cmd, cmd ++ [newline], []⟩
  let x₃ : Link (simpleConn queryService .empty) (SendCommand.program cmd) :=
    ⟨s, SendCommand.State.receiving resp, [], (handleLine e cmd).drop n, cmd ++ [newline], resp⟩
  let x₄ : Link (simpleConn queryService .empty) (SendCommand.program cmd) :=
    ⟨s, SendCommand.State.done resp, [], (handleLine e cmd).drop n, cmd ++ [newline], resp⟩
  have h₀ : Link.Step (.init _ _) (.inr SendCommand.Label.connected) x₀ :=
    .ofClient rfl rfl rfl rfl rfl rfl
  have h₁ : Link.Step x₀ (.inr (SendCommand.Label.sent (cmd ++ [newline]).length)) x₁ :=
    .ofClient rfl hsent rfl rfl rfl rfl
  have h₂ : Link.Step x₁ (.inl (Simple.Label.recv (cmd ++ [newline]) e 0)) x₂ := by
    refine .ofServer hanswer rfl ?_ ?_ rfl rfl
    · simp [x₁, x₂, Link.received, simpleConn, hlog, Simple.Client.new, Log.empty]
    · simp [x₁, x₂, Link.emitted, simpleConn, hlog, Simple.Client.new, Log.empty, queryService]
  have h₃ : Link.Step x₂ (.inr (SendCommand.Label.data resp)) x₃ :=
    .ofClient rfl hread rfl hreply (List.append_nil _).symm rfl
  have h₄ : Link.Step x₃ (.inr SendCommand.Label.failed) x₄ :=
    .ofClient rfl hfail rfl rfl (List.append_nil _).symm (List.append_nil _).symm
  exact ⟨_, x₄, .cons h₀ (.cons h₁ (.cons h₂ (.cons h₃ (.single h₄)))), rfl,
    congrArg Log.calls hlog⟩

/-! ## The sources -/

/-- **A node whose reply is cut short is not taken for one that is up.**  Whatever happens on the
connection, `resolve` reports the node unreachable or decides on the whole reply to its request. -/
theorem remote_resolve_cut (parse : Bytes → Option JsonValue) (hparse : RejectsMalformed parse)
    (name host : Bytes) (port maxStalenessMs : ℕ) (S : ServerConn queryService)
    (ls : List (S.Label ⊕ (SendCommand.program (bytes "HEALTH")).Label))
    (x : Link S (SendCommand.program (bytes "HEALTH")))
    (hrun : Run Link.Step (.init S (SendCommand.program (bytes "HEALTH"))) ls x) (resp : Bytes)
    (hdone : x.client = .done resp) :
    (RemoteDataSource.resolve parse name host port resp maxStalenessMs).status = .unreachable ∨
      ∃ e, (S.log x.server).calls = [(e, bytes "HEALTH")] ∧
        resp ++ [newline] = handleLine e (bytes "HEALTH") := by
  have hcmd : cString (bytes "HEALTH") = bytes "HEALTH" := by decide +kernel
  have hdoc : ∀ c ∈ (S.log x.server).calls, ∃ members, (Json.obj members).Good ∧
      handleLine c.1 (cString (bytes "HEALTH")) = (Json.obj members).render ++ [newline] := by
    intro c _
    rw [hcmd]
    exact ⟨_, healthDoc_all textual_stringBody.admits _, healthResponse_eq _⟩
  rcases returned_cut hrun (by decide +kernel) hdone hparse hdoc with rfl | hnone | hall
  · exact Or.inl rfl
  · left
    rw [RemoteDataSource.resolve]
    split
    · rfl
    · rw [RemoteDataSource.checkHealth, hnone]
      rfl
  · rw [hcmd] at hall
    exact Or.inr hall

/-- A library that reads the document and nothing else. -/
def parseOnly (doc : Json) (t : Bytes) : Option JsonValue :=
  if t = doc.render then some (.ofDoc doc) else none

lemma rejectsMalformed_parseOnly {doc : Json} (h : doc.Good) : RejectsMalformed (parseOnly doc) := by
  intro t j _ hread _
  rw [parseOnly] at hread
  split at hread
  · rename_i ht
    rw [ht]
    exact doc.isJson_render h
  · exact absurd hread (by simp)

/-- A node without books is asked for its health, and the connection fails after twenty bytes. -/
theorem remote_resolve_cut_twenty :
    (RemoteDataSource.resolve (parseOnly (healthDoc ∅)) (bytes "node") (bytes "127.0.0.1") 9092
      (healthReply.take 20) 60000).status = .unreachable := by
  obtain ⟨ls, x, hrun, hdone, hlog⟩ := run_cut bareEnv (bytes "HEALTH")
    (by decide +kernel) (by decide +kernel) (by decide +kernel) (n := 20) rfl (by decide +kernel)
  rcases remote_resolve_cut (parseOnly (healthDoc ∅))
    (rejectsMalformed_parseOnly (healthDoc_all textual_stringBody.admits ∅)) (bytes "node")
    (bytes "127.0.0.1") 9092 60000 _ ls x hrun _ hdone with h | ⟨e, hcalls, hall⟩
  · exact h
  · obtain rfl : bareEnv = e := by simpa using hlog.symm.trans hcalls
    exact absurd hall (by decide +kernel)

/-- A node whose reply for the symbol can be read: prices in eight digits, no name that has to be
escaped, and a library that reads the document. -/
structure QueryEnv.Shows (env : QueryEnv) (parse : Bytes → Option JsonValue) (symbol : Bytes) :
    Prop where
  fmt : env.fmtDbl = gText 8
  names : ∀ snap ∈ env.getSnapshots symbol, Verbatim snap.exchange ∧ Verbatim snap.symbol
  reads : ReadsDoc parse (snapshotDoc env.fmtDbl symbol (env.getSnapshots symbol))

/-- The reply for a symbol is a document. -/
lemma QueryEnv.Shows.doc {env : QueryEnv} {parse : Bytes → Option JsonValue} {symbol : Bytes}
    (h : env.Shows parse symbol) (hsymbol : IsCanonical symbol) :
    ∃ members, (Json.obj members).Good ∧
      handleLine env (bytes "SNAPSHOT " ++ symbol) = (Json.obj members).render ++ [newline] := by
  rw [handleLine_snapshot env hsymbol, h.fmt]
  have hall := snapshotDoc_all hsymbol h.names
  have hgood : (snapshotDoc (gText 8) symbol (env.getSnapshots symbol)).Good :=
    Json.All.mono (fun _ hs => hs.1) (fun _ ht => ht) _ hall
  have hobj : ∃ members, snapshotDoc (gText 8) symbol (env.getSnapshots symbol) = .obj members := by
    rw [snapshotDoc]
    split <;> exact ⟨_, rfl⟩
  obtain ⟨members, hmembers⟩ := hobj
  rw [hmembers] at hgood ⊢
  exact ⟨members, hgood, rfl⟩

/-- The request for a symbol is one line without a zero byte. -/
lemma IsCanonical.request {symbol : Bytes} (h : IsCanonical symbol) :
    newline ∉ bytes "SNAPSHOT " ++ symbol ∧
      cString (bytes "SNAPSHOT " ++ symbol) = bytes "SNAPSHOT " ++ symbol := by
  have hfixed : ∀ b ∈ bytes "SNAPSHOT ", b ≠ newline ∧ b ≠ 0 := by decide +kernel
  have hplain : ∀ b ∈ symbol, b ≠ newline ∧ b ≠ 0 := by
    intro b hb
    have hlow := (isCanonical_byte (h.2 b hb)).2.1.1
    exact ⟨by rintro rfl; exact absurd hlow (by decide), by rintro rfl; exact absurd hlow (by decide)⟩
  have hall : ∀ b ∈ bytes "SNAPSHOT " ++ symbol, b ≠ newline ∧ b ≠ 0 := by
    intro b hb
    exact (List.mem_append.mp hb).elim (hfixed b) (hplain b)
  refine ⟨fun hmem => (hall newline hmem).1 rfl, ?_⟩
  rw [cString, List.takeWhile_eq_self_iff]
  exact fun b hb => decide_eq_true (hall b hb).2

/-- A response that cannot be read stores nothing for its symbol. -/
lemma bbo?_fetch_skipped {parse : Bytes → Option JsonValue} {sendCommand : Bytes → Bytes}
    {symbol : Bytes} (hskip : sendCommand (bytes "SNAPSHOT " ++ symbol) = [] ∨
      parse (sendCommand (bytes "SNAPSHOT " ++ symbol)) = none)
    (name : Bytes) (symbols : List Bytes) (exchange : Bytes) :
    LiveMap.bbo? (RemoteDataSource.fetch parse name sendCommand symbols).live symbol exchange =
      none := by
  have hfold : ∀ (symbols : List Bytes) (live : LiveMap), live.bbo? symbol exchange = none →
      LiveMap.bbo? (symbols.foldl (fun live symbol => RemoteDataSource.addReply parse symbol
        (sendCommand (bytes "SNAPSHOT " ++ symbol)) live) live) symbol exchange = none := by
    intro symbols
    induction symbols with
    | nil => exact fun _ h => h
    | cons symbol' symbols ih =>
      intro live hlive
      refine ih _ ?_
      dsimp only
      by_cases hne : symbol' = symbol
      · subst hne
        rcases hskip with hnil | hnone
        · rw [RemoteDataSource.addReply, if_pos hnil]
          exact hlive
        · rw [addReply_of_parse_none hnone]
          exact hlive
      · rw [bbo?_addReply (.inl hne)]
        exact hlive
  exact hfold symbols ∅ rfl

/-- **What a remote source holds is what a node has shown in full.**  Whatever happens on the
connections and whichever server the node runs, the entry of `fetch` for a symbol and an
exchange is missing, or it is there exactly if the engine of the node had one when it answered,
and where the reply shows the books of the exchange exactly it is the same. -/
theorem remote_fetch_cut (parse : Bytes → Option JsonValue) (hparse : RejectsMalformed parse)
    (name : Bytes) (symbols : List Bytes) (sendCommand : Bytes → Bytes) (symbol exchange : Bytes)
    (hsymbol : IsCanonical symbol) (hexchange : exchange ≠ []) (S : ServerConn queryService)
    (ls : List (S.Label ⊕ (SendCommand.program (bytes "SNAPSHOT " ++ symbol)).Label))
    (x : Link S (SendCommand.program (bytes "SNAPSHOT " ++ symbol)))
    (hrun : Run Link.Step (.init S (SendCommand.program (bytes "SNAPSHOT " ++ symbol))) ls x)
    (hdone : x.client = .done (sendCommand (bytes "SNAPSHOT " ++ symbol)))
    (hshows : ∀ c ∈ (S.log x.server).calls, c.1.Shows parse symbol) :
    let far := (RemoteDataSource.fetch parse name sendCommand symbols).live
    LiveMap.bbo? far symbol exchange = none ∨
      ∃ e, (S.log x.server).calls = [(e, bytes "SNAPSHOT " ++ symbol)] ∧
        let near := (ExchangeDataSource.fetch exchange e.getSnapshots symbols).live
        ((LiveMap.bbo? far symbol exchange).isSome ↔ (LiveMap.bbo? near symbol exchange).isSome) ∧
        ((∀ snap ∈ e.getSnapshots symbol, snap.exchange = exchange → snap.ShownExactly) →
          LiveMap.bbo? far symbol exchange = LiveMap.bbo? near symbol exchange) := by
  obtain ⟨hline, hcstring⟩ := hsymbol.request
  have hdoc : ∀ c ∈ (S.log x.server).calls, ∃ members, (Json.obj members).Good ∧
      handleLine c.1 (cString (bytes "SNAPSHOT " ++ symbol)) =
        (Json.obj members).render ++ [newline] := by
    intro c hc
    rw [hcstring]
    exact (hshows c hc).doc hsymbol
  rcases returned_cut hrun hline hdone hparse hdoc with hnil | hnone | ⟨e, hcalls, hall⟩
  · exact Or.inl (bbo?_fetch_skipped (Or.inl hnil) name symbols exchange)
  · exact Or.inl (bbo?_fetch_skipped (Or.inr hnone) name symbols exchange)
  · rw [hcstring] at hcalls hall
    have henv := hshows (e, bytes "SNAPSHOT " ++ symbol) (by simp [hcalls])
    have hagree := agree_symbols henv.fmt hsymbol hexchange henv.names henv.reads hall id symbols
      (LiveMap.Agree.refl ∅)
    exact Or.inr ⟨e, hcalls, hagree.isSome_iff, hagree.eq⟩

/-- A node with two feeds is asked for `BTC`, and the connection fails after fifty bytes. -/
theorem remote_fetch_cut_fifty :
    let env := nodeAfter twoFeeds
    let doc := snapshotDoc env.fmtDbl (bytes "BTC") (env.getSnapshots (bytes "BTC"))
    LiveMap.bbo? (RemoteDataSource.fetch (parseOnly doc) (bytes "node")
        (fun cmd => (handleLine env cmd).take 50) [bytes "BTC"]).live (bytes "BTC")
      (bytes "Binance") = none := by
  intro env doc
  have hsymbol : IsCanonical (bytes "BTC") := ⟨by decide, by decide +kernel⟩
  have hnames : ∀ snap ∈ env.getSnapshots (bytes "BTC"),
      Verbatim snap.exchange ∧ Verbatim snap.symbol := by decide +kernel
  have hshows : env.Shows (parseOnly doc) (bytes "BTC") := ⟨rfl, hnames, fun _ _ => if_pos rfl⟩
  have hgood : doc.Good := Json.All.mono (fun _ hs => hs.1) (fun _ ht => ht) _
    (snapshotDoc_all hsymbol hnames)
  obtain ⟨hline, hzero⟩ := hsymbol.request
  obtain ⟨ls, x, hrun, hdone, hlog⟩ := run_cut env _ (by decide +kernel) hline hzero (n := 50) rfl
    (by decide +kernel)
  have hone : ∀ c ∈ ((simpleConn queryService .empty).log x.server).calls,
      c.1.Shows (parseOnly doc) (bytes "BTC") := by
    intro c hc
    obtain rfl := List.mem_singleton.mp (hlog ▸ hc)
    exact hshows
  rcases remote_fetch_cut (parseOnly doc) (rejectsMalformed_parseOnly hgood) (bytes "node")
    [bytes "BTC"] (fun cmd => (handleLine env cmd).take 50) (bytes "BTC") (bytes "Binance") hsymbol
    (by decide +kernel) _ ls x hrun hdone hone with h | ⟨e, hcalls, h⟩
  · exact h
  · decide +kernel

end TickPlant
