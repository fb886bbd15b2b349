import AuraChat.Model.Business

set_option autoImplicit false

/-!
# AI streams

`StreamingAIManager::process_stream_request` and `send_stream_chunk` as programs of atomic calls.
What the language model does in one stream is a `Script`, chosen by the environment: the chunks,
whether the flush interval has passed at each of them, and whether the transfer succeeds.

The exception that `on_chunk` raises for a lost connection goes to the handler of
`parse_stream_chunk`, which ignores it: the stream goes on with the next chunk.
-/

namespace AuraChat

open Interleave

/-- One transfer from the language model. -/
structure Script where
  /-- Each chunk, and whether 80 ms have passed since the last flush. -/
  chunks : List (Bytes × Bool) := []
  /-- `curl_easy_perform` returned `CURLE_OK`. -/
  success : Bool := true
  /-- The local time, as the fallback text prints it. -/
  localTime : Bytes := []
  deriving DecidableEq, Repr

/-! ## The fallback text -/

/-- `s.find(t) != npos`. -/
def hasText (s : Bytes) (t : String) : Bool := bytes t <:+: s

/-- `std::transform(…, ::tolower)` on the bytes of a prompt. -/
def lowerBytes (s : Bytes) : Bytes := s.map fun b => if 65 ≤ b ∧ b ≤ 90 then b + 32 else b

def generateFallbackResponse (prompt localTime : Bytes) : Bytes :=
  let lower := lowerBytes prompt
  if hasText lower "你好" || hasText lower "hi" || lower = bytes "hello" then
    bytes "你好！我是 AI 助手。虽然目前没有连接到外部 AI 服务，但我可以帮你解答一些基本问题。\n\n你可以尝试：\n- 问我关于时间、日期的问题\n- 跟我聊天\n- 或者配置 AI_BASE_URL 环境变量接入真正的 AI 服务"
  else if hasText lower "帮助" || hasText lower "help" then
    bytes "这是 WeChat 内置 AI 助手。\n\n当前运行在离线模式，要接入真正的 AI 服务，请设置环境变量：\n  export AI_BASE_URL=http://your-llm-server:port\n\n支持的 API 格式：OpenAI-compatible /v1/chat/completions"
  else if hasText lower "时间" || hasText lower "几点" then bytes "现在是 " ++ localTime
  else if hasText lower "天气" then
    bytes "抱歉，我目前无法获取实时天气数据。要获得完整的 AI 功能，请配置 AI_BASE_URL 环境变量连接到外部 AI 服务。"
  else if hasText lower "你是谁" || hasText lower "你是什么" then
    bytes "我是 WeChat 内置的 AI 助手。当前运行在离线模式，只能提供基础的回答。\n\n要获得更强大的 AI 能力，可以连接 OpenAI 兼容的 API 服务，例如：\n- Ollama\n- llama.cpp server\n- vLLM\n- 或其他兼容 /v1/chat/completions 的服务"
  else if prompt.length < 5 then
    bytes "你好！有什么我可以帮你的吗？\n\n提示：当前 AI 运行在离线模式，回答能力有限。请设置 AI_BASE_URL 接入真正的 AI 服务。"
  else
    bytes "收到你的消息：「" ++ prompt.take 100 ++ (if 100 < prompt.length then bytes "..." else []) ++
      bytes "」\n\n当前 AI 服务未连接，我正在离线模式下工作。\n\n要获得智能回复，请配置 AI_BASE_URL 环境变量：\n  export AI_BASE_URL=http://your-llm-server:port\n\n然后重启服务器即可。"

/-! ## Chunks -/

/-- The chat message that carries a chunk. -/
def chunkMessage (uid : Int) (chunk : Bytes) (isLast : Bool) (streamSeq now : Int) : ChatMessage where
  fromUid := 9999
  toUid := uid
  content := chunk
  isStream := !isLast || chunk ≠ []
  isLastChunk := isLast
  streamSeq := streamSeq
  timestamp := now

section Stream

variable (P : Params) (req : StreamRequest)

/-- `send_stream_chunk`: an empty chunk is skipped unless it is the last one. -/
def sendStreamChunk (chunk : Bytes) (isLast : Bool) (streamSeq : Int) : Prog Reply Unit := do
  if (← call (.ownerWorker req.origin.ctx)).isNone then pure ()
  else if chunk = [] ∧ isLast = false then pure ()
  else
    let now ← call .systemClock
    call (.queueSendPacket req.origin.ctx .chat 0
      (P.codec.serializeChatMessage (chunkMessage req.uid chunk isLast streamSeq now)) .chunk)

/-- The variables that the callbacks of `stream_chat` share. -/
structure StreamBuf where
  buffer : Bytes := []
  streamSeq : Int := 0
  connLost : Bool := false

/-- The `on_chunk` callback, for each chunk in turn. -/
def onChunks : List (Bytes × Bool) → StreamBuf → Prog Reply StreamBuf
  | [], b => pure b
  | (chunk, late) :: rest, b => do
      let buffer := b.buffer ++ chunk
      if (← call (.loadFd req.origin.ctx)) < 0 then
        onChunks rest { b with buffer := buffer, connLost := true }
      else if (50 ≤ buffer.length ∨ late = true ∨ 10 ∈ chunk) ∧ buffer ≠ [] then
        sendStreamChunk P req buffer false b.streamSeq
        onChunks rest { b with buffer := [], streamSeq := b.streamSeq + 1 }
      else onChunks rest { b with buffer := buffer }

def onComplete (b : StreamBuf) : Prog Reply StreamBuf := do
  if (← call (.loadFd req.origin.ctx)) < 0 then pure { b with connLost := true }
  else
    sendStreamChunk P req b.buffer true b.streamSeq
    pure { b with buffer := [], streamSeq := b.streamSeq + 1 }

/-- The pieces of at most 15 bytes that the fallback text is cut into. -/
def pieces (text : Bytes) : List Bytes := text.toChunks 15

def sendPieces : List Bytes → Int → Prog Reply Unit
  | [], _ => pure ()
  | piece :: rest, streamSeq => do
      if 0 ≤ (← call (.loadFd req.origin.ctx)) then
        sendStreamChunk P req piece rest.isEmpty streamSeq
        sendPieces rest (streamSeq + 1)
      else sendPieces rest streamSeq

def processStreamRequest (script : Script) : Prog Reply Unit := do
  if (← call (.loadFd req.origin.ctx)) < 0 then call (.eraseStream req.origin.ctx)
  else
    let _ ← call .nextClient
    let b ← onChunks P req script.chunks {}
    let b ← if script.success then onComplete P req b else pure b
    if script.success = false ∧ b.connLost = false then
      sendPieces P req (pieces (generateFallbackResponse req.prompt script.localTime)) b.streamSeq
    call (.eraseStream req.origin.ctx)

end Stream

end AuraChat
