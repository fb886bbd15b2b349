import AuraChat.Lib.JsonGrammar
import AuraChat.Model.Stream
import Mathlib.Data.List.TakeWhile

set_option autoImplicit false

/-!
# The client of the language model

`LlamaClient` sends a prompt and reads server-sent events. The text of the request is spliced together by
hand. `libcurl` hands the data of the reply to `stream_write_cb` piece by piece; each line with the prefix
`data: ` goes to `parse_stream_chunk`, which calls `on_chunk` with the text it finds. Functions that may
throw are in `ExceptT Exn`, over a monad of what the callbacks do; the JSON parser is a parameter.

* `escape`, `requestBody`: the request of `stream_chat`;
* `streamWriteCb`, `deliver`: the pieces of the reply;
* `chunkContent`, `parseStreamChunk`: an event;
* `onChunk`, `onComplete`: the callbacks of `process_stream_request`;
* `streamChat`: the transfer.
-/

namespace AuraChat

namespace Llama

open JsonGrammar (Value)

/-! ## The request -/

def escapeByte (c : UInt8) : Bytes :=
  if c = 0x22 then [0x5C, 0x22]
  else if c = 0x5C then [0x5C, 0x5C]
  else if c = 0x0A then [0x5C, 0x6E]
  else if c = 0x0D then [0x5C, 0x72]
  else if c = 0x09 then [0x5C, 0x74]
  else [c]

def escape (s : Bytes) : Bytes := s.flatMap escapeByte

def asksForCode (prompt : Bytes) : Bool :=
  hasText prompt "代码" || hasText prompt "写一个" || hasText prompt "实现" || hasText prompt "编程"

def asksForDetails (prompt : Bytes) : Bool :=
  hasText prompt "详细" || hasText prompt "全面" || hasText prompt "完整"

def needLongOutput (prompt : Bytes) : Bool := asksForCode prompt || 300 < prompt.length

def maxTokens (prompt : Bytes) : ℕ :=
  let n := if asksForCode prompt then 8196 else 4096
  let n := if asksForDetails prompt then max n 3072 else n
  if 300 < prompt.length then max n 3072 else n

def systemPrompt (prompt : Bytes) : Bytes :=
  if needLongOutput prompt then
    bytes "你是一个专业助手。请在回答时保持清晰的排版，段落之间务必使用两个换行符(\\n\\n)分隔。"
  else bytes "你是一个助手。请简明扼要，并使用换行符保持良好的段落排版。"

def requestBody (prompt : Bytes) : Bytes :=
  bytes "\x7b\n    \"messages\": [\n        \x7b\"role\": \"system\", \"content\": \"" ++
    escape (systemPrompt prompt) ++
  bytes "\"\x7d,\n        \x7b\"role\": \"user\", \"content\": \"" ++ escape prompt ++
  bytes "\"\x7d\n    ],\n    \"temperature\": 0.7,\n    \"max_tokens\": " ++
    bytes (toString (maxTokens prompt)) ++
  bytes ",\n    \"stream\": true\n\x7d"

/-! ## The reply -/

structure StreamContext where
  lineBuffer : Bytes := []
  deriving DecidableEq, Repr

/-- The bytes before the first line feed, and those behind it. -/
def splitLine (buf : Bytes) : Option (Bytes × Bytes) :=
  if 0x0A ∈ buf then some (buf.takeWhile (· ≠ 0x0A), (buf.dropWhile (· ≠ 0x0A)).tail) else none

/-- A carriage return at the end of a line is removed. -/
def stripCr (line : Bytes) : Bytes := if line.getLast? = some 0x0D then line.dropLast else line

theorem splitLine_eq_some {buf line rest : Bytes} :
    splitLine buf = some (line, rest) ↔ buf = line ++ 0x0A :: rest ∧ 0x0A ∉ line := by
  constructor
  · intro h
    rw [splitLine] at h
    split_ifs at h with hmem
    cases h
    refine ⟨?_, fun hin => absurd (List.mem_takeWhile_imp hin) (by simp)⟩
    have hne : buf.dropWhile (· ≠ 0x0A) ≠ [] := by
      rw [Ne, List.dropWhile_eq_nil_iff]
      exact fun hall => absurd (hall _ hmem) (by simp)
    have hhead : (buf.dropWhile (· ≠ 0x0A)).head hne = 0x0A := by
      simpa using List.head_dropWhile_not (fun b : UInt8 => b ≠ 0x0A) hne
    have hcons := List.cons_head_tail hne
    rw [hhead] at hcons
    rw [hcons, List.takeWhile_append_dropWhile]
  · rintro ⟨rfl, hline⟩
    have hall : ∀ b ∈ line, (b ≠ 0x0A : Bool) = true := by
      intro b hb
      simpa using fun he : b = 0x0A => hline (he ▸ hb)
    rw [splitLine, if_pos (by simp), List.takeWhile_append_of_pos hall, List.dropWhile_append_of_pos hall]
    simp

theorem splitLine_shorter {buf line rest : Bytes} (h : splitLine buf = some (line, rest)) :
    rest.length < buf.length := by
  rw [(splitLine_eq_some.mp h).1, List.length_append, List.length_cons]
  omega

section Reply

variable {m : Type → Type} [Monad m]

/-- A line of the reply: the data of an event is parsed, except for the mark of the end. -/
def handleLine (parse : Bytes → m Unit) (line : Bytes) : m Unit :=
  let line := stripCr line
  if bytes "data: " <+: line then
    let jsonData := line.drop 6
    if jsonData = bytes "[DONE]" then pure () else parse jsonData
  else pure ()

/-- The loop of `stream_write_cb` over the lines in `line_buffer`. -/
def drainLines (parse : Bytes → m Unit) (buf : Bytes) : m Bytes :=
  match h : splitLine buf with
  | none => pure buf
  | some (line, rest) =>
      have := splitLine_shorter h
      handleLine parse line >>= fun _ => drainLines parse rest
termination_by buf.length

/-- `stream_write_cb`: the bytes that it reports are all that it was given. -/
def streamWriteCb (parse : Bytes → m Unit) (ctx : StreamContext) (data : Bytes) :
    m (StreamContext × ℕ) := do
  let buf ← drainLines parse (ctx.lineBuffer ++ data)
  pure (⟨buf⟩, data.length)

/-- `libcurl` hands the pieces over, and gives up when one is not consumed. -/
def deliver (parse : Bytes → m Unit) : List Bytes → StreamContext → m (StreamContext × Bool)
  | [], ctx => pure (ctx, true)
  | piece :: rest, ctx => do
      let (ctx, total) ← streamWriteCb parse ctx piece
      if total = piece.length then deliver parse rest ctx else pure (ctx, false)

end Reply

/-! ## Events -/

/-- A `std::exception`. -/
inductive Exn
  /-- Of the JSON library. -/
  | json
  /-- `std::runtime_error`. -/
  | runtime
  deriving DecidableEq, Repr

/-- `get<std::string>()`. -/
def getString : Value → Except Exn Bytes
  | .str s => .ok s
  | _ => .error .json

/-- What is under a key, unless it is null. -/
def nonNull (key : String) (delta : Value) : Option Value :=
  match delta.get? (bytes key) with
  | some .null | none => none
  | some v => some v

/-- `["delta"]` of a choice. A null value becomes an object and a missing key is added, with null. -/
def getDelta : Value → Except Exn Value
  | .null => .ok .null
  | .obj members => .ok (((Value.obj members).get? (bytes "delta")).getD .null)
  | _ => .error .json

/-- The text of an event. -/
def chunkContent (j : Value) : Except Exn Bytes :=
  match j.get? (bytes "choices") with
  | some (.arr (choice :: _)) => do
      let delta ← getDelta choice
      match nonNull "content" delta with
      | some v => getString v
      | none =>
          match nonNull "reasoning_content" delta with
          | some v => getString v
          | none => .ok []
  | _ => .ok []

section Callbacks

variable {m : Type → Type} [Monad m]

/-- `parse_stream_chunk`: its handler takes every `std::exception`, those of `on_chunk` too. -/
def parseStreamChunk (parseJson : Bytes → Option Value) (onChunk : Bytes → ExceptT Exn m Unit)
    (jsonRaw : Bytes) : ExceptT Exn m Unit :=
  tryCatch
    (match parseJson jsonRaw with
      | none => throw .json
      | some j =>
          match chunkContent j with
          | .error e => throw e
          | .ok content => if content ≠ [] then onChunk content else pure ())
    fun _ => pure ()

/-- What the callbacks of `process_stream_request` use: the descriptor of the connection, the clock (whether
80 ms have passed since the last flush), and `send_stream_chunk`. -/
structure Env (m : Type → Type) where
  loadFd : m Int
  late : m Bool
  send : Bytes → Bool → Int → m Unit

/-- `on_chunk`: it throws when the connection is lost. -/
def onChunk (env : Env m) (chunk : Bytes) : ExceptT Exn (StateT StreamBuf m) Unit := .mk fun b => do
  let buffer := b.buffer ++ chunk
  let late ← env.late
  if (← env.loadFd) < 0 then pure (.error .runtime, { b with buffer := buffer, connLost := true })
  else if (50 ≤ buffer.length ∨ late = true ∨ 10 ∈ chunk) ∧ buffer ≠ [] then
    env.send buffer false b.streamSeq
    pure (.ok (), { b with buffer := [], streamSeq := b.streamSeq + 1 })
  else pure (.ok (), { b with buffer := buffer })

def onComplete (env : Env m) : ExceptT Exn (StateT StreamBuf m) Unit := .mk fun b => do
  if (← env.loadFd) < 0 then pure (.ok (), { b with connLost := true })
  else
    env.send b.buffer true b.streamSeq
    pure (.ok (), { b with buffer := [], streamSeq := b.streamSeq + 1 })

/-- `stream_chat`: the pieces that arrive, and whether the transfer comes to its end after them. -/
def streamChat (parseJson : Bytes → Option Value) (env : Env m) (pieces : List Bytes) (finished : Bool) :
    ExceptT Exn (StateT StreamBuf m) Bool := do
  let (_, consumed) ← deliver (parseStreamChunk parseJson (onChunk env)) pieces {}
  if consumed && finished then
    onComplete env
    pure true
  else pure false

end Callbacks

end Llama

end AuraChat
