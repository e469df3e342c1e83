import Emend.Document

/-! The built-in phrases of follow-up pass 1, which runs on what the passes before it leave. -/

namespace Emend.Preset

def zhEnFollowup1 : PhraseDocument where
  name := units "zh-en-followup-1"
  description := some (units "Mixed Chinese/English comment phrases left after zh-en-comments. First follow-up pass.")
  items := [
    ⟨units "重用现有类型，保持兼容性", units "Reuse existing types, maintain compatibility"⟩,
    ⟨units "它只关注API格式Convert，不涉及具体网络通信。", units "It only focuses on API format conversion, not specific network communication."⟩,
    ⟨units "Get聊天完成endpointURL", units "Get chat completion endpoint URL"⟩,
    ⟨units "映射HTTPErrorsto统一Errors类型", units "Map HTTP errors to unified error type"⟩,
    ⟨units "Getauthentication头 (optional)", units "Get authentication headers (optional)"⟩,
    ⟨units "默认Use通用SSE流Parse", units "Default to use generic SSE stream parser"⟩,
    ⟨units "服务Provide商trait - Define统一服务接口", units "Service Provider trait - Define unified service interface"⟩,
    ⟨units "thistrait代表a具体LLM服务Provide商，Provide完整服务功能。", units "This trait represents a specific LLM service provider, providing complete service functionality."⟩,
    ⟨units "它is用户直接交互接口。", units "It is the direct user interaction interface."⟩,
    ⟨units "Provide商name (such as \"openai\", \"aliyun\", \"ollama\")", units "Provider name (such as \"openai\", \"aliyun\", \"ollama\")"⟩,
    ⟨units "聊天完成", units "Chat completion"⟩,
    ⟨units "类型ConvertSupport (for特殊功能访问)", units "Type conversion support (for special feature access)"⟩,
    ⟨units "this结构体as大多数标准LLM APIProvide通用实现。", units "This struct provides generic implementation for most standard LLM APIs."⟩,
    ⟨units "它UseProtocol traitto处理API特定格式Convert，", units "It uses Protocol trait to handle API-specific format conversion,"⟩,
    ⟨units "UseHttpClientto处理网络通信。", units "uses HttpClient to handle network communication."⟩,
    ⟨units "Create新通用Provide商", units "Create new generic provider"⟩,
    ⟨units "CheckHTTP状态", units "Check HTTP status"⟩,
    ⟨units "Provider Build器 - 统一Build接口", units "Provider Builder - Unified Build Interface"⟩,
    ⟨units "this模块Providea优雅 Builder 模式 API，forBuild各种 Provider。", units "This module provides an elegant Builder pattern API for building various Providers."⟩,
    ⟨units "Provider Build器", units "Provider Builder"⟩,
    ⟨units "Create新 Provider Build器", units "Create new Provider Builder"⟩,
    ⟨units "基础 URL", units "Base URL"⟩,
    ⟨units "Set timeout时间（秒）", units "Set timeout (seconds)"⟩,
    ⟨units "60秒超时", units "60 seconds timeout"⟩,
    ⟨units "添加Additional HTTP headers", units "Add additional HTTP headers"⟩,
    ⟨units "合并authentication头andAdditionalheaders", units "Merge authentication headers and additional headers"⟩,
    ⟨units "Create通用Provide商", units "Create generic provider"⟩,
    ⟨units "格式: sk-ant-...", units "Format: sk-ant-..."⟩,
    ⟨units "Create Zhipu GLM client (OpenAI兼容模式)", units "Create Zhipu GLM client (OpenAI compatible mode)"⟩,
    ⟨units "格式: ak_...", units "Format: ak_..."⟩,
    ⟨units "VolcengineUse OpenAI 兼容 API 格式，但endpoint路径不同", units "Volcengine uses OpenAI compatible API format, but with different endpoint paths"⟩,
    ⟨units "Volcengine API 密钥 (UUID 格式)", units "Volcengine API key (UUID format)"⟩,
    ⟨units "Tencent HunyuanUse OpenAI 兼容 API 格式", units "Tencent Hunyuan uses OpenAI compatible API format"⟩,
    ⟨units "Tencent Hunyuan API 密钥 (格式: sk-...)", units "Tencent Hunyuan API key (format: sk-...)"⟩,
    ⟨units "Create带有customconfigurationTencent Hunyuanclient", units "Create Tencent Hunyuan client with custom configuration"⟩,
    ⟨units "Moonshot API 密钥 (格式: sk-...)", units "Moonshot API key (format: sk-...)"⟩,
    ⟨units "DeepSeek API 密钥 (格式: sk-...)", units "DeepSeek API key (format: sk-...)"⟩,
    ⟨units "if底层ProviderisOllamaProvider，ReturnsSome引用，if则ReturnsNone", units "If underlying Provider is OllamaProvider, returns Some reference, otherwise returns None"⟩,
    ⟨units "可以访问 Ollama 特定功能", units "Can access Ollama-specific features"⟩,
    ⟨units "尝试将clientConvertasOpenAIProvider", units "Try to convert client to OpenAIProvider"⟩,
    ⟨units "尝试将clientConvertasAliyunProvider", units "Try to convert client to AliyunProvider"⟩,
    ⟨units "尝试将clientConvertasAnthropicProvider", units "Try to convert client to AnthropicProvider"⟩,
    ⟨units "尝试将clientConvertasZhipuProvider", units "Try to convert client to ZhipuProvider"⟩,
    ⟨units "Zhipu GLM服务Provide商实现 - V2架构", units "Zhipu GLM Service Provider Implementation - V2 Architecture"⟩,
    ⟨units "this模块ProvideZhipu GLM服务完整实现，Support原生格式andOpenAI兼容格式。", units "This module provides complete Zhipu GLM service implementation, supporting native format and OpenAI compatible format."⟩,
    ⟨units "from Zhipu response中提取推理content", units "Extract reasoning content from Zhipu response"⟩,
    ⟨units "Zhipu GLM-Z1 etc.推理model将推理过程嵌入in content 中，Use标记分隔：", units "Zhipu GLM-Z1 and other reasoning models embed reasoning process in content, using markers to separate:"⟩,
    ⟨units "标记推理过程开始", units "Marks the start of reasoning process"⟩,
    ⟨units "标记最终答案开始", units "Marks the start of final answer"⟩,
    ⟨units "原始 content 字符串", units "Original content string"⟩,
    ⟨units "推理contentand最终答案", units "Reasoning content and final answer"⟩,
    ⟨units "CheckisifContains推理标记", units "Check if contains reasoning markers"⟩,
    ⟨units "分离推理contentand答案", units "Separate reasoning content and answer"⟩,
    ⟨units "if没有推理标记，Returns原始content", units "If no reasoning markers, return original content"⟩,
    ⟨units "Zhipu streamingresponse处理阶段", units "Zhipu streaming response processing stage"⟩,
    ⟨units "初始状态，etc.待检测isifas推理model", units "Initial state, waiting to detect if is reasoning model"⟩,
    ⟨units "in推理阶段（###Thinking 之后，###Response 之前）", units "In reasoning stage (after ###Thinking, before ###Response)"⟩,
    ⟨units "in答案阶段（###Response 之后）", units "In answer stage (after ###Response)"⟩,
    ⟨units "Zhipu streamingresponse状态机", units "Zhipu streaming response state machine"⟩,
    ⟨units "缓冲区，for累积content", units "Buffer for accumulating content"⟩,
    ⟨units "当前处理阶段", units "Current processing stage"⟩,
    ⟨units "处理streamingcontent增量", units "Process streaming content delta"⟩,
    ⟨units "推理content增量and答案content增量", units "Reasoning content delta and answer content delta"⟩,
    ⟨units "检测isifContains ###Thinking 标记", units "Detect if contains ###Thinking marker"⟩,
    ⟨units "移除标记并进入推理阶段", units "Remove marker and enter reasoning stage"⟩,
    ⟨units "Checkisif立即Contains ###Response（完整推理ina块中）", units "Check if immediately contains ###Response (complete reasoning in one chunk)"⟩,
    ⟨units "Returns当前缓冲区作as推理content", units "Return current buffer as reasoning content"⟩,
    ⟨units "不is推理model，直接Returnscontent", units "Not a reasoning model, return content directly"⟩,
    ⟨units "检测isifContains ###Response 标记", units "Detect if contains ###Response marker"⟩,
    ⟨units "继续累积推理content", units "Continue accumulating reasoning content"⟩,
    ⟨units "in答案阶段，直接Returnscontent", units "In answer stage, return content directly"⟩,
    ⟨units "处理 ###Response 标记", units "Process ###Response marker"⟩,
    ⟨units "推理部分（###Response 之前）", units "Reasoning part (before ###Response)"⟩,
    ⟨units "答案部分（###Response 之后）", units "Answer part (after ###Response)"⟩,
    ⟨units "不应该发生，但as安全", units "Should not happen, but for safety"⟩,
    ⟨units "Zhipu GLM私有protocol实现", units "Zhipu GLM private protocol implementation"⟩,
    ⟨units "智谱SupportOpenAI兼容格式，但有自己authenticationandErrors处理。", units "Zhipu supports OpenAI compatible format, but has its own authentication and error handling."⟩,
    ⟨units "由于这is私有protocol，Defineinprovider内部而不is公开protocols模块中。", units "Since this is a private protocol, it is defined inside the provider rather than in the public protocols module."⟩,
    ⟨units "Create新智谱Protocol instance (Use原生格式)", units "Create new Zhipu Protocol instance (using native format)"⟩,
    ⟨units "CreateUseOpenAI兼容格式智谱Protocol instance", units "Create Zhipu Protocol instance using OpenAI compatible format"⟩,
    ⟨units "isifUseOpenAI兼容格式", units "Whether to use OpenAI compatible format"⟩,
    ⟨units "Note: Content-Type 由 HttpClient::post()  .json() method自动Set", units "Note: Content-Type is automatically set by HttpClient::post() .json() method"⟩,
    ⟨units "不要in这里repetitiveSet，if则may导致repetitiveheadersErrors", units "Do not set repeatedly here, otherwise may cause duplicate headers error"⟩,
    ⟨units "智谱UseOpenAI兼容格式", units "Zhipu uses OpenAI compatible format"⟩,
    ⟨units "Zhipu Use纯文本格式", units "Zhipu uses plain text format"⟩,
    ⟨units "提取推理content（if存in）", units "Extract reasoning content (if exists)"⟩,
    ⟨units "智谱专用streamingParse器", units "Zhipu-specific streaming parser"⟩,
    ⟨units "智谱 API Use单换行分隔 SSE 事件，而不is标准双换行", units "Zhipu API uses single newline to separate SSE events, not standard double newline"⟩,
    ⟨units "格式: data: \x7b...\x7d\\n 而不is data: \x7b...\x7d\\n\\n", units "Format: data: \x7b...\x7d\\n instead of data: \x7b...\x7d\\n\\n"⟩,
    ⟨units "智谱Use单换行分隔each data: 行", units "Zhipu uses single newline to separate each data: line"⟩,
    ⟨units "跳过空行", units "Skip empty lines"⟩,
    ⟨units "提取 data: 后content", units "Extract content after data:"⟩,
    ⟨units "跳过 [DONE] 标记", units "Skip [DONE] marker"⟩,
    ⟨units "跳过空 payload", units "Skip empty payload"⟩,
    ⟨units "将 JSON 字符串流Convertas StreamingResponse 流", units "Convert JSON string stream to StreamingResponse stream"⟩,
    ⟨units "Use状态机处理 Zhipu  ###Thinking and ###Response 标记", units "Use state machine to handle Zhipu ###Thinking and ###Response markers"⟩,
    ⟨units "处理推理content标记", units "Process reasoning content markers"⟩,
    ⟨units "Use状态机处理content", units "Use state machine to process content"⟩,
    ⟨units "更新 delta", units "Update delta"⟩,
    ⟨units "同时更新 response.content", units "Also update response.content"⟩]

end Emend.Preset
