/-
# The built-in sources

How the three sources of the repository decide whether they can serve a report: the feeds of
the own engine (`ExchangeDataSource`), another server asked over the query protocol
(`RemoteDataSource`), and the database (`QuestDbDataSource`).  What comes back from the
network, the reply of the remote server and the body of the HTTP response, is an input of
`resolve`.

The JSON library is a parameter `parse`.  Its accessors throw where the value has the wrong
type; they are functions into `Option`, and `none` is the exception that the `catch (...)` of
`resolve` handles.
-/
import TickPlant.Report.Pipeline
import TickPlant.JsonValue

namespace TickPlant

/-! ## The sources -/

/-- `ExchangeDataSource::resolve`, for the map that `get_feed_staleness_ms` returns. -/
def ExchangeDataSource.resolve (name : Bytes) (staleness : AList fun _ : Bytes => ℕ)
    (maxStalenessMs : ℕ) : ResolutionResult :=
  match staleness.lookup name with
  | none => ⟨.unreachable, name ++ bytes ": no data received yet"⟩
  | some ms =>
    if ms = ArbitrageEngine.uint64Max then
      ⟨.unreachable, name ++ bytes ": no data received yet"⟩
    else if ms > maxStalenessMs then
      ⟨.stale, name ++ bytes ": staleness " ++ toText ms ++ bytes "ms > threshold " ++
        toText maxStalenessMs ++ bytes "ms"⟩
    else ⟨.ok, []⟩

namespace RemoteDataSource

/-- The loop over the feeds of a `HEALTH` reply. -/
def anyLive (maxStalenessMs : ℕ) : List JsonValue → Option Bool
  | [] => some false
  | feed :: feeds => do
    let ms ← feed.value (bytes "staleness_ms") JsonValue.getInt64 (-1)
    if 0 ≤ ms ∧ ms ≤ maxStalenessMs then some true else anyLive maxStalenessMs feeds

/-- The `try` block of `resolve`. -/
def checkHealth (parse : Bytes → Option JsonValue) (name resp : Bytes) (maxStalenessMs : ℕ) :
    Option ResolutionResult := do
  let j ← parse resp
  let status ← j.value (bytes "status") JsonValue.getString []
  if status ≠ bytes "ok" then return ⟨.unreachable, name ++ bytes ": HEALTH not ok"⟩
  let live ← anyLive maxStalenessMs (j.member (bytes "feeds")).elements
  if live then return ⟨.ok, []⟩
  else return ⟨.stale, name ++ bytes ": all remote feeds stale beyond threshold"⟩

/-- `RemoteDataSource::resolve`, for the response that `send_command` returns. -/
def resolve (parse : Bytes → Option JsonValue) (name host : Bytes) (port : ℕ) (resp : Bytes)
    (maxStalenessMs : ℕ) : ResolutionResult :=
  if resp = [] then
    ⟨.unreachable, name ++ bytes ": no response from " ++ host ++ bytes ":" ++ toText port⟩
  else
    (checkHealth parse name resp maxStalenessMs).getD
      ⟨.unreachable, name ++ bytes ": HEALTH parse error"⟩

end RemoteDataSource

namespace QuestDbDataSource

/-- The `try` block of `resolve`. -/
def checkTable (parse : Bytes → Option JsonValue) (body : Bytes) : Option ResolutionResult := do
  let j ← parse body
  if j.contains (bytes "error") then
    let text ← (j.member (bytes "error")).getString
    return ⟨.unreachable, bytes "QuestDB error: " ++ text⟩
  if !j.contains (bytes "dataset") || (j.member (bytes "dataset")).isEmpty then
    return ⟨.stale, bytes "QuestDB: order_book table is empty"⟩
  let row ← (j.member (bytes "dataset")).first
  if row.isEmpty then return ⟨.stale, bytes "QuestDB: order_book table is empty"⟩
  let cnt ← (← row.first).getUInt64
  if cnt = 0 then return ⟨.stale, bytes "QuestDB: order_book table is empty"⟩
  else return ⟨.ok, []⟩

/-- `QuestDbDataSource::resolve`, for the body that `http_get` returns. -/
def resolve (parse : Bytes → Option JsonValue) (body : Bytes) : ResolutionResult :=
  if body = [] then ⟨.unreachable, bytes "QuestDB HTTP endpoint unreachable"⟩
  else
    (checkTable parse body).getD
      ⟨.unreachable, bytes "QuestDB: parse error — body preview: " ++ body.take 120⟩

end QuestDbDataSource

/-- A source of the repository, with what it learns at each call of `resolve`. -/
inductive BuiltinSource
  /-- A feed of the own engine: the staleness map. -/
  | exchange (name : Bytes) (staleness : ℕ → AList fun _ : Bytes => ℕ)
  /-- Another server: its reply to `HEALTH`. -/
  | remote (name host : Bytes) (port : ℕ) (reply : ℕ → Bytes)
  /-- The database: the body of its response. -/
  | questDb (body : ℕ → Bytes)

namespace BuiltinSource

/-- `DataSource::name`. -/
def name : BuiltinSource → Bytes
  | exchange name _ => name
  | remote name _ _ _ => name
  | questDb _ => bytes "QuestDB"

/-- `DataSource::resolve`. -/
def resolve (parse : Bytes → Option JsonValue) :
    BuiltinSource → ℕ → List Bytes → ℕ → ResolutionResult
  | exchange name staleness, call, _, maxStalenessMs =>
    ExchangeDataSource.resolve name (staleness call) maxStalenessMs
  | remote name host port reply, call, _, maxStalenessMs =>
    RemoteDataSource.resolve parse name host port (reply call) maxStalenessMs
  | questDb body, call, _, _ => QuestDbDataSource.resolve parse (body call)

end BuiltinSource

/-- The sources of a pipeline are registered under their names. -/
def ReportPipeline.HasSources (p : ReportPipeline) (parse : Bytes → Option JsonValue)
    (sources : Bytes → Option BuiltinSource) : Prop :=
  ∀ name, match sources name with
    | none => p.registry name = none
    | some b => b.name = name ∧ ∃ fetch, p.registry name = some ⟨b.resolve parse, fetch⟩

end TickPlant
