import Emend.Document

/-! The built-in phrases of follow-up pass 2, which runs on what the passes before it leave. -/

namespace Emend.Preset

def zhEnFollowup2 : PhraseDocument where
  name := units "zh-en-followup-2"
  description := some (units "Remaining comment phrases and single Chinese words. Second follow-up pass; run after zh-en-followup-1.")
  items := [
    ⟨units "Create新 Provider Builder", units "Create new Provider Builder"⟩,
    ⟨units "if没有content增量，清空 delta.content", units "If no content delta, clear delta.content"⟩,
    ⟨units "智谱专用data结构 (OpenAI兼容格式)", units "Zhipu-specific data structure (OpenAI compatible format)"⟩,
    ⟨units "Zhipu GLM服务Provide商类型", units "Zhipu GLM service provider type"⟩,
    ⟨units "CreateZhipu GLM服务Provide商 (Use原生格式)", units "Create Zhipu GLM service provider (using native format)"⟩,
    ⟨units "configuration好智谱服务Provide商instance", units "Configured Zhipu service provider instance"⟩,
    ⟨units "CreateZhipu GLM服务Provide商 (UseOpenAI兼容格式)", units "Create Zhipu GLM service provider (using OpenAI compatible format)"⟩,
    ⟨units "configuration好智谱服务Provide商instance (OpenAI兼容模式)", units "Configured Zhipu service provider instance (OpenAI compatible mode)"⟩,
    ⟨units "Create带有customconfigurationZhipu GLM服务Provide商", units "Create Zhipu GLM service provider with custom configuration"⟩,
    ⟨units "超时时间(秒) (optional)", units "Timeout (seconds) (optional)"⟩,
    ⟨units "代理URL (optional)", units "Proxy URL (optional)"⟩,
    ⟨units "UseOpenAI兼容格式", units "Use OpenAI compatible format"⟩,
    ⟨units "Use默认URL", units "Use default URL"⟩,
    ⟨units "添加authentication头", units "Add authentication headers"⟩,
    ⟨units "Create带有custom超时Zhipu GLM服务Provide商", units "Create Zhipu GLM service provider with custom timeout"⟩,
    ⟨units "超时时间(秒)", units "Timeout (seconds)"⟩,
    ⟨units "Set120秒超时", units "Set 120 seconds timeout"⟩,
    ⟨units "CreateforZhipu GLM企业版服务Provide商", units "Create Zhipu GLM enterprise service provider"⟩,
    ⟨units "企业版API key", units "Enterprise API key"⟩,
    ⟨units "企业版endpointURL", units "Enterprise endpoint URL"⟩,
    ⟨units "ValidateZhipu GLM API key格式", units "Validate Zhipu GLM API key format"⟩,
    ⟨units "要ValidateAPI key", units "API key to validate"⟩,
    ⟨units "if格式看起to正确Returnstrue，if则Returnsfalse", units "Returns true if format looks correct, otherwise returns false"⟩,
    ⟨units "测试Contains推理content情况", units "Test case with reasoning content"⟩,
    ⟨units "测试不Contains推理content情况", units "Test case without reasoning content"⟩,
    ⟨units "测试只有 Thinking 没有 Response 情况", units "Test case with only Thinking, no Response"⟩,
    ⟨units "测试空推理content情况", units "Test case with empty reasoning content"⟩,
    ⟨units "测试推理modelstreamingresponse", units "Test reasoning model streaming response"⟩,
    ⟨units "第a块:", units "First chunk:"⟩,
    ⟨units "第二个块:", units "Second chunk:"⟩,
    ⟨units "第三个块:", units "Third chunk:"⟩,
    ⟨units "第四个块:", units "Fourth chunk:"⟩,
    ⟨units "推理过程", units "Reasoning process"⟩,
    ⟨units "继续答案", units "Continue answer"⟩,
    ⟨units "测试非推理modelstreamingresponse", units "Test non-reasoning model streaming response"⟩,
    ⟨units "普通content", units "Normal content"⟩,
    ⟨units "继续content", units "Continue content"⟩,
    ⟨units "测试完整推理ina块中", units "Test complete reasoning in one chunk"⟩,
    ⟨units "LongCat API 服务Provide商实现", units "LongCat API Service Provider Implementation"⟩,
    ⟨units "LongCat Support两种 API 格式：", units "LongCat supports two API formats:"⟩,
    ⟨units "OpenAI 格式 - Use OpenAI 兼容接口", units "OpenAI format - Uses OpenAI compatible interface"⟩,
    ⟨units "Anthropic 格式 - Use Anthropic 兼容接口，但authentication方式as Bearer token", units "Anthropic format - Uses Anthropic compatible interface, but with Bearer token authentication"⟩,
    ⟨units "Note：LongCat  Anthropic 格式Use `Authorization: Bearer` authentication，", units "Note: LongCat Anthropic format uses `Authorization: Bearer` authentication,"⟩,
    ⟨units "而不is标准 Anthropic  `x-api-key` authentication。", units "instead of standard Anthropic `x-api-key` authentication."⟩,
    ⟨units "LongCat Anthropic 格式protocoladapter", units "LongCat Anthropic format protocol adapter"⟩,
    ⟨units "Use ConfigurableProtocol 包装 Anthropic protocol，Use Bearer authentication", units "Uses ConfigurableProtocol to wrap Anthropic protocol, using Bearer authentication"⟩,
    ⟨units "LongCat Anthropic 格式服务Provide商类型", units "LongCat Anthropic format service provider type"⟩,
    ⟨units "Create LongCat Anthropic 格式服务Provide商", units "Create LongCat Anthropic format service provider"⟩,
    ⟨units "LongCat API 密钥 (Format: ak_...)", units "LongCat API key (Format: ak_...)"⟩,
    ⟨units "Create带有customconfiguration LongCat Anthropic 服务Provide商", units "Create LongCat Anthropic service provider with custom configuration"⟩,
    ⟨units "API 密钥", units "API key"⟩,
    ⟨units "customBase URL (optional，默认as LongCat Anthropic endpoint)", units "Custom base URL (optional, defaults to LongCat Anthropic endpoint)"⟩,
    ⟨units "Provide商", units "Provider"⟩,
    ⟨units "服务", units "service"⟩,
    ⟨units "类型", units "type"⟩,
    ⟨units "实现", units "implementation"⟩,
    ⟨units "格式", units "format"⟩,
    ⟨units "兼容", units "compatible"⟩,
    ⟨units "配置", units "configuration"⟩,
    ⟨units "自定义", units "custom"⟩,
    ⟨units "默认", units "default"⟩,
    ⟨units "可选", units "optional"⟩,
    ⟨units "密钥", units "key"⟩,
    ⟨units "端点", units "endpoint"⟩,
    ⟨units "超时", units "timeout"⟩,
    ⟨units "代理", units "proxy"⟩,
    ⟨units "验证", units "validate"⟩,
    ⟨units "测试", units "test"⟩,
    ⟨units "情况", units "case"⟩,
    ⟨units "包含", units "contains"⟩,
    ⟨units "内容", units "content"⟩,
    ⟨units "推理", units "reasoning"⟩,
    ⟨units "过程", units "process"⟩,
    ⟨units "答案", units "answer"⟩,
    ⟨units "继续", units "continue"⟩,
    ⟨units "普通", units "normal"⟩,
    ⟨units "完整", units "complete"⟩,
    ⟨units "块", units "chunk"⟩,
    ⟨units "第一", units "first"⟩,
    ⟨units "第二", units "second"⟩,
    ⟨units "第三", units "third"⟩,
    ⟨units "第四", units "fourth"⟩,
    ⟨units "个", units "/"⟩,
    ⟨units "支持", units "support"⟩,
    ⟨units "两种", units "two"⟩,
    ⟨units "接口", units "interface"⟩,
    ⟨units "方式", units "method"⟩,
    ⟨units "标准", units "standard"⟩,
    ⟨units "认证", units "authentication"⟩,
    ⟨units "包装", units "wrap"⟩,
    ⟨units "使用", units "use"⟩,
    ⟨units "创建", units "create"⟩,
    ⟨units "带有", units "with"⟩,
    ⟨units "企业版", units "enterprise"⟩,
    ⟨units "返回", units "return"⟩,
    ⟨units "如果", units "if"⟩,
    ⟨units "否则", units "otherwise"⟩,
    ⟨units "正确", units "correct"⟩,
    ⟨units "看起来", units "looks"⟩,
    ⟨units "设置", units "set"⟩,
    ⟨units "秒", units "seconds"⟩,
    ⟨units "添加", units "add"⟩,
    ⟨units "头", units "headers"⟩,
    ⟨units "清空", units "clear"⟩,
    ⟨units "没有", units "no"⟩,
    ⟨units "增量", units "delta"⟩,
    ⟨units "专用", units "specific"⟩,
    ⟨units "数据结构", units "data structure"⟩,
    ⟨units "模型", units "model"⟩,
    ⟨units "流式", units "streaming"⟩,
    ⟨units "响应", units "response"⟩,
    ⟨units "只有", units "only"⟩,
    ⟨units "空", units "empty"⟩,
    ⟨units "非", units "non-"⟩,
    ⟨units "注意", units "Note"⟩,
    ⟨units "而不是", units "instead of"⟩,
    ⟨units "适配器", units "adapter"⟩,
    ⟨units "协议", units "protocol"⟩]

end Emend.Preset
