import Emend.Document

/-! The built-in phrases of follow-up pass 3, which runs on what the passes before it leave. -/

namespace Emend.Preset

def zhEnFollowup3 : PhraseDocument where
  name := units "zh-en-followup-3"
  description := some (units "Residual mixed phrases. Third follow-up pass; run after zh-en-followup-2.")
  items := [
    ⟨units "OpenAIcompatible模式", units "OpenAI compatible mode"⟩,
    ⟨units "Createconfiguration驱动protocol", units "Create configuration-driven protocol"⟩,
    ⟨units "Use Bearer authentication + Additionalheaders", units "Use Bearer authentication + Additional headers"⟩,
    ⟨units "Use Bearer 而不is x-api-key", units "Use Bearer instead of x-api-key"⟩,
    ⟨units "应该Use Bearer authentication", units "Should use Bearer authentication"⟩,
    ⟨units "应该Contains anthropic-version", units "Should contain anthropic-version"⟩,
    ⟨units "不应该Contains x-api-key", units "Should not contain x-api-key"⟩,
    ⟨units "Use ConfigurableProtocol wrap OpenAI protocol，customendpoint路径", units "Use ConfigurableProtocol to wrap OpenAI protocol, custom endpoint paths"⟩,
    ⟨units "customendpoint路径", units "custom endpoint paths"⟩,
    ⟨units "完全compatiblestandard OpenAI protocol", units "fully compatible with standard OpenAI protocol"⟩,
    ⟨units "Ollamaisa本地LLMservice", units "Ollama is a local LLM service"⟩,
    ⟨units "具有特殊model管理功能", units "with special model management features"⟩,
    ⟨units "因此需要customProviderimplementation", units "therefore requires custom Provider implementation"⟩,
    ⟨units "由于Ollama具有特殊model管理功能", units "Since Ollama has special model management features"⟩,
    ⟨units "我们UsecustomProviderimplementation", units "we use custom Provider implementation"⟩,
    ⟨units "而不isGenericProvider模式", units "instead of GenericProvider pattern"⟩,
    ⟨units "Create新OllamaProvider", units "Create new OllamaProvider"⟩,
    ⟨units "Content-Type 由 HttpClient::post()  .json() method自动Set", units "Content-Type is automatically set by HttpClient::post() .json() method"⟩,
    ⟨units "拉取model", units "Pull model"⟩,
    ⟨units "要拉取modelname", units "Model name to pull"⟩,
    ⟨units "such as \"llama2\", \"codellama\"", units "such as \"llama2\", \"codellama\""⟩,
    ⟨units "删除model", units "Delete model"⟩,
    ⟨units "要删除modelname", units "Model name to delete"⟩,
    ⟨units "Getmodel信息", units "Get model information"⟩,
    ⟨units "model详细信息", units "Model details"⟩,
    ⟨units "Checkmodelisif存in", units "Check if model exists"⟩,
    ⟨units "Ollama不Supporttool角色", units "Ollama does not support tool role"⟩,
    ⟨units "Ollama Use纯文本format", units "Ollama uses plain text format"⟩,
    ⟨units "Ollama不ReturnstokenUse信息", units "Ollama does not return token usage information"⟩,
    ⟨units "OllamaUseJSONLformat而不isSSE", units "Ollama uses JSONL format instead of SSE"⟩,
    ⟨units "CreateOllamaserviceProvider (default本地地址)", units "Create Ollama service Provider (default local address)"⟩,
    ⟨units "2分钟timeout", units "2 minutes timeout"⟩,
    ⟨units "V2serviceProvider模chunk", units "V2 Service Provider Module"⟩,
    ⟨units "this模chunkContainsallserviceProviderimplementation", units "This module contains all service Provider implementations"⟩,
    ⟨units "eachProvider代表a具体LLMservice", units "each Provider represents a specific LLM service"⟩,
    ⟨units "重新导出serviceProvidertypeandfunction", units "Re-export service Provider types and functions"⟩,
    ⟨units "DeepSeek Use OpenAI compatible API format", units "DeepSeek uses OpenAI compatible API format"⟩,
    ⟨units "Supportreasoningmodel（reasoning content）andstandard对话model", units "Supports reasoning models (reasoning content) and standard chat models"⟩,
    ⟨units "Aliyun DashScopeserviceProviderimplementation - V2架构", units "Aliyun DashScope Service Provider Implementation - V2 Architecture"⟩,
    ⟨units "this模chunkProvideAliyun DashScopeservicecompleteimplementation", units "This module provides complete Aliyun DashScope service implementation"⟩,
    ⟨units "Use统一V2架构", units "using unified V2 architecture"⟩,
    ⟨units "Aliyun DashScope私有protocolimplementation", units "Aliyun DashScope private protocol implementation"⟩,
    ⟨units "这is阿里云specificAPIformat", units "This is Aliyun-specific API format"⟩,
    ⟨units "withOpenAIandAnthropic都不同", units "different from both OpenAI and Anthropic"⟩,
    ⟨units "Create新阿里云Protocol instance", units "Create new Aliyun Protocol instance"⟩,
    ⟨units "不要in这里repetitiveSet", units "Do not set repeatedly here"⟩,
    ⟨units "if则will导致 \"Content-Type application/json,application/json is not supported\" Errors", units "otherwise will cause \"Content-Type application/json,application/json is not supported\" error"⟩,
    ⟨units "Convertas阿里云format", units "Convert to Aliyun format"⟩,
    ⟨units "Aliyun Use纯文本format", units "Aliyun uses plain text format"⟩,
    ⟨units "streaming模式需要 incremental_output", units "Streaming mode requires incremental_output"⟩,
    ⟨units "直接Use用户指定values", units "Directly use user-specified values"⟩,
    ⟨units "clear已处理行", units "Clear processed lines"⟩,
    ⟨units "Build choices 数组（符合 OpenAI standardformat）", units "Build choices array (conforming to OpenAI standard format)"⟩,
    ⟨units "from choices[0] 提取 content 作as便利字段", units "Extract content from choices[0] as convenience field"⟩,
    ⟨units "提取 usage 信息", units "Extract usage information"⟩,
    ⟨units "Aliyun 不Provide created 时间戳", units "Aliyun does not provide created timestamp"⟩,
    ⟨units "阿里云specificdata结构", units "Aliyun-specific data structures"⟩,
    ⟨units "需要特殊处理streamingrequest", units "Requires special handling for streaming requests"⟩,
    ⟨units "因as Aliyun 需要 X-DashScope-SSE headers", units "because Aliyun requires X-DashScope-SSE headers"⟩,
    ⟨units "GetProtocol instance引用", units "Get Protocol instance reference"⟩,
    ⟨units "Get HTTP client引用", units "Get HTTP client reference"⟩,
    ⟨units "Create临时client", units "Create temporary client"⟩,
    ⟨units "addstreamingheaders", units "add streaming headers"⟩,
    ⟨units "configuration好阿里云serviceProviderinstance", units "Configured Aliyun service Provider instance"⟩,
    ⟨units "Createwithcustomconfiguration阿里云serviceProvider", units "Create Aliyun service Provider with custom configuration"⟩,
    ⟨units "Custom base URL (optional，defaultas官方endpoint)", units "Custom base URL (optional, defaults to official endpoint)"⟩,
    ⟨units "CreateHTTP Client（不Containsstreamingheaders）", units "Create HTTP Client (without streaming headers)"⟩,
    ⟨units "Createcustom Aliyun Provider（需要特殊处理streamingrequest）", units "Create custom Aliyun Provider (requires special streaming request handling)"⟩,
    ⟨units "Createfor阿里云国际版serviceProvider", units "Create Aliyun international service Provider"⟩,
    ⟨units "阿里云国际版API key", units "Aliyun international API key"⟩,
    ⟨units "区域 (such as \"us-west-1\", \"ap-southeast-1\")", units "Region (such as \"us-west-1\", \"ap-southeast-1\")"⟩,
    ⟨units "Createfor阿里云专有云serviceProvider", units "Create Aliyun private cloud service Provider"⟩,
    ⟨units "专有云endpointURL", units "Private cloud endpoint URL"⟩,
    ⟨units "Createwithcustomtimeout阿里云serviceProvider", units "Create Aliyun service Provider with custom timeout"⟩,
    ⟨units "阿里云某些modelmay需要较长处理时间", units "Some Aliyun models may require longer processing time"⟩,
    ⟨units "thisfunctionProvide便利timeoutconfiguration", units "this function provides convenient timeout configuration"⟩,
    ⟨units "Set 120 seconds timeout，适for长文本处理", units "Set 120 seconds timeout, suitable for long text processing"⟩,
    ⟨units "test显式启用", units "Test explicit enable"⟩,
    ⟨units "显式启用", units "Explicitly enable"⟩,
    ⟨units "test显式禁用", units "Test explicit disable"⟩,
    ⟨units "显式禁用", units "Explicitly disable"⟩,
    ⟨units "test未指定（default不启用）", units "Test unspecified (default not enabled)"⟩,
    ⟨units "enable_thinking 未指定", units "enable_thinking not specified"⟩,
    ⟨units "Tencent Hunyuan uses OpenAI compatible API format", units "Tencent Hunyuan uses OpenAI compatible API format"⟩,
    ⟨units "Anthropic ClaudeserviceProviderimplementation - V2架构", units "Anthropic Claude Service Provider Implementation - V2 Architecture"⟩,
    ⟨units "this模chunkProvideAnthropic Claudeservicecompleteimplementation", units "This module provides complete Anthropic Claude service implementation"⟩,
    ⟨units "configuration好AnthropicserviceProviderinstance", units "Configured Anthropic service Provider instance"⟩,
    ⟨units "Custom base URL (optional，defaultas官方endpoint)", units "Custom base URL (optional, defaults to official endpoint)"⟩,
    ⟨units "Google Cloud项目ID", units "Google Cloud project ID"⟩,
    ⟨units "区域 (such as \"us-central1\")", units "Region (such as \"us-central1\")"⟩,
    ⟨units "Google Cloud访问令牌", units "Google Cloud access token"⟩,
    ⟨units "Vertex AI不需要Anthropic API key", units "Vertex AI does not require Anthropic API key"⟩,
    ⟨units "AWS区域 (such as \"us-east-1\")", units "AWS region (such as \"us-east-1\")"⟩,
    ⟨units "AWS访问keyID", units "AWS access key ID"⟩,
    ⟨units "AWS秘密访问key", units "AWS secret access key"⟩,
    ⟨units "Bedrock不需要Anthropic API key", units "Bedrock does not require Anthropic API key"⟩,
    ⟨units "Note: 这里简化AWS签名process", units "Note: This simplifies AWS signature process"⟩,
    ⟨units "实际Use中需要implementationAWS SigV4签名", units "actual use requires AWS SigV4 signature implementation"⟩,
    ⟨units "Anthropic某些modelmay需要较长处理时间", units "Some Anthropic models may require longer processing time"⟩,
    ⟨units "Set 120 seconds timeout，适for长文本处理", units "Set 120 seconds timeout, suitable for long text processing"⟩,
    ⟨units "ifformatcorrectReturnstrue，if则Returnsfalse", units "Returns true if format is correct, otherwise returns false"⟩,
    ⟨units "OpenAIserviceProviderimplementation - V2架构", units "OpenAI Service Provider Implementation - V2 Architecture"⟩,
    ⟨units "this模chunkProvideOpenAIservicecompleteimplementation", units "This module provides complete OpenAI service implementation"⟩,
    ⟨units "configuration好OpenAIserviceProviderinstance", units "Configured OpenAI service Provider instance"⟩,
    ⟨units "thisfunctionas各种OpenAIcompatibleserviceProvide便利Createmethod", units "This function provides convenient create method for various OpenAI-compatible services"⟩,
    ⟨units "Service name (forErrors消息)", units "Service name (for error messages)"⟩]

end Emend.Preset
