import Emend.Document

/-! The built-in phrases of follow-up pass 4, which runs on what the passes before it leave. -/

namespace Emend.Preset

def zhEnFollowup4 : PhraseDocument where
  name := units "zh-en-followup-4"
  description := some (units "Last residual phrases, including text rewritten by earlier passes. Run after zh-en-followup-3.")
  items := [
    ⟨units "由于Ollamawith special model management features，we use custom Provider implementation", units "Since Ollama has special model management features, we use custom Provider implementation"⟩,
    ⟨units "要Pull modelname (such as \"llama2\", \"codellama\")", units "Model name to pull (such as \"llama2\", \"codellama\")"⟩,
    ⟨units "要Delete modelname", units "Model name to delete"⟩,
    ⟨units "导出standardprotocol", units "Export standard protocols"⟩,
    ⟨units "导出私有protocol（from providers 中）", units "Export private protocols (from providers)"⟩,
    ⟨units "protocol模chunk - 公开standardprotocol", units "Protocol Module - Public Standard Protocols"⟩,
    ⟨units "this模chunk只Contains业界公认standardLLM APIprotocol：", units "This module only contains industry-recognized standard LLM API protocols:"⟩,
    ⟨units "- **OpenAI Protocol**: standardOpenAI API规范 - 被多/serviceProviderSupport", units "- **OpenAI Protocol**: Standard OpenAI API specification - supported by multiple service providers"⟩,
    ⟨units "- **Anthropic Protocol**: standardAnthropic Claude API规范 - 官方protocol", units "- **Anthropic Protocol**: Standard Anthropic Claude API specification - official protocol"⟩,
    ⟨units "## 设计原则", units "## Design Principles"⟩,
    ⟨units "- 只Contains公开、standard化protocol", units "- Only contains public, standardized protocols"⟩,
    ⟨units "- 其他serviceProvidermaywillimplementationtheseprotocol", units "- Other service providers may implement these protocols"⟩,
    ⟨units "- 私有protocolDefinein各自 `providers` 模chunk中", units "- Private protocols are defined in respective `providers` modules"⟩,
    ⟨units "Note：具体serviceProviderimplementationin `providers` 模chunk中。", units "Note: Specific service provider implementations are in the `providers` module."⟩,
    ⟨units "重新导出standardprotocoltype", units "Re-export standard protocol types"⟩,
    ⟨units "Anthropic Claudeprotocolimplementation - V2架构", units "Anthropic Claude Protocol Implementation - V2 Architecture"⟩,
    ⟨units "this模chunkimplementationAnthropic Claude APIprotocol规范。", units "This module implements the Anthropic Claude API protocol specification."⟩,
    ⟨units "Create新AnthropicProtocol instance", units "Create new Anthropic Protocol instance"⟩,
    ⟨units "Anthropic API 需要分离 system 消息", units "Anthropic API requires separating system messages"⟩,
    ⟨units "Anthropic 只Supporta system 消息，放in单独字段中", units "Anthropic only supports one system message, placed in a separate field"⟩,
    ⟨units "if有多/ system 消息，合并它们", units "If there are multiple system messages, merge them"⟩,
    ⟨units "Anthropic 总isUse数组format", units "Anthropic always uses array format"⟩,
    ⟨units "Anthropic 暂不Support tool 角色，Convertas user", units "Anthropic does not support tool role yet, convert to user"⟩,
    ⟨units "Anthropic 要求必须Set", units "Anthropic requires this to be set"⟩,
    ⟨units "Anthropic Returns单/contentchunk", units "Anthropic returns single content chunk"⟩,
    ⟨units "Anthropic Use不同streamingformat：", units "Anthropic uses different streaming format:"⟩,
    ⟨units "- message_start: Contains message 对象（有 id）", units "- message_start: Contains message object (with id)"⟩,
    ⟨units "- content_block_start: 开始contentchunk", units "- content_block_start: Start content chunk"⟩,
    ⟨units "- content_block_stop: 结束contentchunk", units "- content_block_stop: End content chunk"⟩,
    ⟨units "- message_delta: 消息delta（Contains usage）", units "- message_delta: Message delta (contains usage)"⟩,
    ⟨units "- message_stop: 消息结束", units "- message_stop: Message end"⟩,
    ⟨units "Usestandard SSE Parse器", units "Use standard SSE parser"⟩,
    ⟨units "共享状态：保存 message_id", units "Shared state: save message_id"⟩,
    ⟨units "Convert事件流", units "Convert event stream"⟩,
    ⟨units "Parse Anthropic streaming事件", units "Parse Anthropic streaming event"⟩,
    ⟨units "提取并保存 message id", units "Extract and save message id"⟩,
    ⟨units "message_start 不Returnscontent", units "message_start does not return content"⟩,
    ⟨units "提取文本delta", units "Extract text delta"⟩,
    ⟨units "构造 StreamingResponse", units "Construct StreamingResponse"⟩,
    ⟨units "提取 usage and stop_reason", units "Extract usage and stop_reason"⟩,
    ⟨units "Returns最终response（Contains finish_reason and usage）", units "Return final response (contains finish_reason and usage)"⟩,
    ⟨units "忽略其他事件type", units "Ignore other event types"⟩,
    ⟨units "OpenAIprotocolimplementation - V2架构", units "OpenAI Protocol Implementation - V2 Architecture"⟩,
    ⟨units "this模chunkimplementationstandardOpenAI APIprotocol规范。", units "This module implements the standard OpenAI API protocol specification."⟩,
    ⟨units "Create新OpenAIProtocol instance", units "Create new OpenAI Protocol instance"⟩,
    ⟨units "纯文本：Use字符串format", units "Plain text: use string format"⟩,
    ⟨units "多模态：Use数组format", units "Multi-modal: use array format"⟩,
    ⟨units "纯文本", units "Plain text"⟩,
    ⟨units "多模态数组", units "Multi-modal array"⟩,
    ⟨units "提取第a选择content作as便利字段（纯文本）", units "Extract first choice content as convenience field (plain text)"⟩,
    ⟨units "提取第achoicereasoning_content", units "Extract first choice reasoning_content"⟩]

end Emend.Preset
