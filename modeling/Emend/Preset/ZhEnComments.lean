import Emend.Document

/-! The built-in phrases of comments, from Chinese to English. -/

namespace Emend.Preset

def zhEnComments : PhraseDocument where
  name := units "zh-en-comments"
  description := some (units "Chinese doc-comment phrases translated to English, applied line by line in table order.")
  items := [
    ⟨units "V2统一客户端 - 下一代LLM客户端接口", units "V2 Unified Client - Next-generation LLM client interface"⟩,
    ⟨units "这个模块提供统一的客户端接口，支持所有LLM服务提供商", units "This module provides a unified client interface supporting all LLM service providers"⟩,
    ⟨units "统一LLM客户端", units "Unified LLM Client"⟩,
    ⟨units "这个客户端提供统一的接口来访问各种LLM服务", units "This client provides a unified interface to access various LLM services"⟩,
    ⟨units "使用V2架构的清晰抽象层", units "using V2 architecture's clean abstraction layer"⟩,
    ⟨units "示例", units "Example"⟩,
    ⟨units "参数", units "Parameters"⟩,
    ⟨units "返回", units "Returns"⟩,
    ⟨units "错误", units "Errors"⟩,
    ⟨units "阿里云DashScope", units "Aliyun DashScope"⟩,
    ⟨units "智谱GLM", units "Zhipu GLM"⟩,
    ⟨units "火山引擎", units "Volcengine"⟩,
    ⟨units "腾讯云混元", units "Tencent Hunyuan"⟩,
    ⟨units "月之暗面", units "Moonshot"⟩,
    ⟨units "从任何Provider创建客户端", units "Create client from any Provider"⟩,
    ⟨units "创建OpenAI客户端", units "Create OpenAI client"⟩,
    ⟨units "创建带有自定义基础URL的OpenAI客户端", units "Create OpenAI client with custom base URL"⟩,
    ⟨units "创建Azure OpenAI客户端", units "Create Azure OpenAI client"⟩,
    ⟨units "创建阿里云DashScope客户端", units "Create Aliyun DashScope client"⟩,
    ⟨units "创建Anthropic Claude客户端", units "Create Anthropic Claude client"⟩,
    ⟨units "创建智谱GLM客户端", units "Create Zhipu GLM client"⟩,
    ⟨units "创建智谱GLM客户端 (OpenAI兼容模式)", units "Create Zhipu GLM client (OpenAI compatible mode)"⟩,
    ⟨units "创建Ollama客户端 (默认本地地址)", units "Create Ollama client (default local address)"⟩,
    ⟨units "创建带有自定义URL的Ollama客户端", units "Create Ollama client with custom URL"⟩,
    ⟨units "创建OpenAI兼容服务客户端", units "Create OpenAI-compatible service client"⟩,
    ⟨units "创建LongCat Anthropic格式客户端", units "Create LongCat Anthropic format client"⟩,
    ⟨units "创建带有自定义配置的LongCat Anthropic客户端", units "Create LongCat Anthropic client with custom configuration"⟩,
    ⟨units "创建火山引擎（Volcengine）客户端", units "Create Volcengine client"⟩,
    ⟨units "创建带有自定义配置的火山引擎客户端", units "Create Volcengine client with custom configuration"⟩,
    ⟨units "创建腾讯云混元（Tencent Hunyuan）客户端", units "Create Tencent Hunyuan client"⟩,
    ⟨units "创建带有自定义配置的腾讯云混元客户端", units "Create Tencent Hunyuan client with custom configuration"⟩,
    ⟨units "创建 Moonshot（月之暗面）客户端", units "Create Moonshot client"⟩,
    ⟨units "创建带有自定义配置的 Moonshot 客户端", units "Create Moonshot client with custom configuration"⟩,
    ⟨units "创建 DeepSeek 客户端", units "Create DeepSeek client"⟩,
    ⟨units "创建带有自定义配置的 DeepSeek 客户端", units "Create DeepSeek client with custom configuration"⟩,
    ⟨units "高级构造函数 - 自定义配置", units "Advanced Constructors - Custom Configuration"⟩,
    ⟨units "创建带有自定义配置的OpenAI客户端", units "Create OpenAI client with custom configuration"⟩,
    ⟨units "创建带有自定义配置的Aliyun客户端", units "Create Aliyun client with custom configuration"⟩,
    ⟨units "创建Aliyun国际版客户端", units "Create Aliyun international client"⟩,
    ⟨units "创建Aliyun专有云客户端", units "Create Aliyun private cloud client"⟩,
    ⟨units "创建带有自定义超时的Aliyun客户端", units "Create Aliyun client with custom timeout"⟩,
    ⟨units "创建带有自定义配置的Anthropic客户端", units "Create Anthropic client with custom configuration"⟩,
    ⟨units "创建Anthropic Vertex AI客户端", units "Create Anthropic Vertex AI client"⟩,
    ⟨units "创建Anthropic AWS Bedrock客户端", units "Create Anthropic AWS Bedrock client"⟩,
    ⟨units "创建带有自定义超时的Anthropic客户端", units "Create Anthropic client with custom timeout"⟩,
    ⟨units "创建带有自定义配置的Zhipu客户端", units "Create Zhipu client with custom configuration"⟩,
    ⟨units "创建带有自定义超时的Zhipu客户端", units "Create Zhipu client with custom timeout"⟩,
    ⟨units "创建Zhipu企业版客户端", units "Create Zhipu enterprise client"⟩,
    ⟨units "创建带有自定义配置的Ollama客户端", units "Create Ollama client with custom configuration"⟩,
    ⟨units "获取提供商名称", units "Get provider name"⟩,
    ⟨units "发送聊天完成请求", units "Send chat completion request"⟩,
    ⟨units "发送流式聊天完成请求", units "Send streaming chat completion request"⟩,
    ⟨units "获取可用模型列表", units "Get available models list"⟩,
    ⟨units "获取底层提供商的引用 (用于特殊功能访问)", units "Get reference to underlying provider (for special feature access)"⟩,
    ⟨units "类型安全的Provider转换方法", units "Type-safe Provider conversion methods"⟩,
    ⟨units "尝试将客户端转换为OllamaProvider", units "Try to convert client to OllamaProvider"⟩,
    ⟨units "OpenAI API密钥", units "OpenAI API key"⟩,
    ⟨units "API密钥", units "API key"⟩,
    ⟨units "自定义基础URL", units "Custom base URL"⟩,
    ⟨units "Azure OpenAI API密钥", units "Azure OpenAI API key"⟩,
    ⟨units "Azure OpenAI端点", units "Azure OpenAI endpoint"⟩,
    ⟨units "API版本", units "API version"⟩,
    ⟨units "Anthropic API密钥 (格式: sk-ant-...)", units "Anthropic API key (format: sk-ant-...)"⟩,
    ⟨units "服务基础URL", units "Service base URL"⟩,
    ⟨units "服务名称", units "Service name"⟩,
    ⟨units "Ollama服务的URL", units "Ollama service URL"⟩,
    ⟨units "聊天请求", units "Chat request"⟩,
    ⟨units "聊天响应", units "Chat response"⟩,
    ⟨units "聊天流", units "Chat stream"⟩,
    ⟨units "模型名称列表", units "List of model names"⟩,
    ⟨units "如果底层Provider是OllamaProvider，返回Some引用，否则返回None", units "Returns Some reference if underlying Provider is OllamaProvider, otherwise None"⟩,
    ⟨units "可以进行类型转换以访问特定提供商的功能", units "Can perform type conversion to access provider-specific features"⟩,
    ⟨units "创建请求", units "Create request"⟩,
    ⟨units "发送请求", units "Send request"⟩,
    ⟨units "创建", units "Create"⟩,
    ⟨units "获取", units "Get"⟩,
    ⟨units "设置", units "Set"⟩,
    ⟨units "检查", units "Check"⟩,
    ⟨units "验证", units "Validate"⟩,
    ⟨units "转换", units "Convert"⟩,
    ⟨units "解析", units "Parse"⟩,
    ⟨units "构建", units "Build"⟩,
    ⟨units "初始化", units "Initialize"⟩,
    ⟨units "火山引擎使用 OpenAI 兼容的 API 格式，但端点路径不同", units "Volcengine uses OpenAI-compatible API format, but with different endpoint paths"⟩,
    ⟨units "腾讯云混元使用 OpenAI 兼容的 API 格式", units "Tencent Hunyuan uses OpenAI-compatible API format"⟩,
    ⟨units "Moonshot 使用 OpenAI 兼容的 API 格式", units "Moonshot uses OpenAI-compatible API format"⟩,
    ⟨units "DeepSeek 使用 OpenAI 兼容的 API 格式，支持推理模型", units "DeepSeek uses OpenAI-compatible API format, supports reasoning models"⟩,
    ⟨units "LongCat的Anthropic端点使用Bearer认证而不是标准的x-api-key认证", units "LongCat's Anthropic endpoint uses Bearer authentication instead of standard x-api-key authentication"⟩,
    ⟨units "支持多模态内容，包括文本、图片等", units "Supports multi-modal content including text, images, etc."⟩,
    ⟨units "一条消息可以包含多个内容块，支持文本、图片等多模态内容", units "A message can contain multiple content blocks, supporting multi-modal content like text, images, etc."⟩,
    ⟨units "可配置的协议适配器 - 配置驱动的抽象", units "Configurable Protocol Adapter - Configuration-driven abstraction"⟩,
    ⟨units "这个模块提供了一个通用的协议适配器，通过配置来定制行为，", units "This module provides a generic protocol adapter that customizes behavior through configuration,"⟩,
    ⟨units "可配置的协议适配器", units "Configurable Protocol Adapter"⟩,
    ⟨units "包装一个基础协议，通过配置来修改其行为（端点路径、认证方式等）。", units "Wraps a base protocol and modifies its behavior through configuration (endpoint paths, authentication methods, etc.)."⟩,
    ⟨units "协议配置", units "Protocol Configuration"⟩,
    ⟨units "定义协议的静态配置，包括名称、端点、认证方式等。", units "Defines static configuration for the protocol, including name, endpoints, authentication methods, etc."⟩,
    ⟨units "端点配置", units "Endpoint Configuration"⟩,
    ⟨units "定义 API 端点的路径模板，支持 `\x7bbase_url\x7d` 变量替换。", units "Defines API endpoint path templates, supporting `\x7bbase_url\x7d` variable substitution."⟩,
    ⟨units "支持变量: `\x7bbase_url\x7d`", units "Supports variable: `\x7bbase_url\x7d`"⟩,
    ⟨units "认证配置", units "Authentication Configuration"⟩,
    ⟨units "定义如何处理 API 认证。", units "Defines how to handle API authentication."⟩,
    ⟨units "Create新的可配置协议适配器", units "Create new configurable protocol adapter"⟩,
    ⟨units "Create一个使用标准 OpenAI 端点和 Bearer 认证的配置。", units "Create a configuration using standard OpenAI endpoints and Bearer authentication."⟩,
    ⟨units "提供统一的HTTP通信层，支持标准请求和流式请求。", units "Provides unified HTTP communication layer, supporting standard and streaming requests."⟩,
    ⟨units "封装了HTTP通信的所有细节，包括认证、超时、代理等配置。", units "Encapsulates all HTTP communication details, including authentication, timeout, proxy configuration, etc."⟩,
    ⟨units "支持", units "Support"⟩,
    ⟨units "包含", units "Contains"⟩,
    ⟨units "定义", units "Define"⟩,
    ⟨units "提供", units "Provide"⟩,
    ⟨units "使用", units "Use"⟩,
    ⟨units "通过", units "Through"⟩,
    ⟨units "包括", units "Including"⟩,
    ⟨units "等", units "etc."⟩,
    ⟨units "协议名称", units "Protocol name"⟩,
    ⟨units "模型列表端点模板（可选）", units "Model list endpoint template (optional)"⟩,
    ⟨units "基础协议实例", units "Base protocol instance"⟩,
    ⟨units "便捷构造器 - OpenAI 兼容协议", units "Convenience constructor - OpenAI compatible protocol"⟩,
    ⟨units "从内部协议提取 token", units "Extract token from internal protocol"⟩,
    ⟨units "这是一个辅助方法，用于从内部协议的认证头中提取 token。", units "This is a helper method to extract token from the internal protocol's authentication headers."⟩,
    ⟨units "HTTP客户端实现 - V2架构", units "HTTP Client Implementation - V2 Architecture"⟩,
    ⟨units "HTTP客户端", units "HTTP Client"⟩,
    ⟨units "Create新的HTTP客户端", units "Create new HTTP client"⟩,
    ⟨units "Create带有自Define配置的HTTP客户端", units "Create HTTP client with custom configuration"⟩,
    ⟨units "添加请求头", units "Add request headers"⟩,
    ⟨units "添加单个请求头", units "Add single request header"⟩,
    ⟨units "发送GET请求", units "Send GET request"⟩,
    ⟨units "添加所有配置的请求头", units "Add all configured request headers"⟩,
    ⟨units "发送POST请求", units "Send POST request"⟩,
    ⟨units "发送流式POST请求", units "Send streaming POST request"⟩,
    ⟨units "发送带有自Define头的POST请求", units "Send POST request with custom headers"⟩,
    ⟨units "再添加配置的请求头 (可能会覆盖自Define头)", units "Then add configured headers (may override custom headers)"⟩,
    ⟨units "HTTP客户端实现", units "HTTP client implementation"⟩,
    ⟨units "协议trait - Define纯API规范", units "Protocol trait - Defines pure API specification"⟩,
    ⟨units "这个trait代表一个LLM API的协议规范，如OpenAI API、Anthropic APIetc.。", units "This trait represents an LLM API protocol specification, such as OpenAI API, Anthropic API, etc."⟩,
    ⟨units "协议特定的请求类型", units "Protocol-specific request type"⟩,
    ⟨units "协议特定的响应类型", units "Protocol-specific response type"⟩,
    ⟨units "协议名称 (如 \"openai\", \"anthropic\")", units "Protocol name (e.g., \"openai\", \"anthropic\")"⟩,
    ⟨units "Get模型列表的端点URL (可选)", units "Get model list endpoint URL (optional)"⟩,
    ⟨units "Build协议特定的请求", units "Build protocol-specific request"⟩,
    ⟨units "Parse协议特定的响应", units "Parse protocol-specific response"⟩,
    ⟨units "Parse模型列表响应", units "Parse model list response"⟩,
    ⟨units "Parse流式响应 (可选)", units "Parse streaming response (optional)"⟩,
    ⟨units "流式聊天完成", units "Streaming chat completion"⟩,
    ⟨units "Get协议引用", units "Get protocol reference"⟩,
    ⟨units "Get客户端引用", units "Get client reference"⟩,
    ⟨units "Parse响应", units "Parse response"⟩,
    ⟨units "Provide链式调用的 API 来Build Provider，统一处理所有配置项。", units "Provides fluent API to build Provider, handling all configuration items uniformly."⟩,
    ⟨units "协议实例", units "Protocol instance"⟩,
    ⟨units "注意：这些头部会与协议的认证头部合并。", units "Note: These headers will be merged with the protocol's authentication headers."⟩,
    ⟨units "配置好的 GenericProvider 实例", units "Configured GenericProvider instance"⟩,
    ⟨units "如果 HTTP 客户端Create失败，ReturnsErrors", units "Returns error if HTTP client creation fails"⟩,
    ⟨units "Create HTTP 客户端", units "Create HTTP client"⟩,
    ⟨units "CreateAliyun DashScope客户端", units "Create Aliyun DashScope client"⟩,
    ⟨units "CreateZhipu GLM客户端", units "Create Zhipu GLM client"⟩,
    ⟨units "CreateZhipu GLM客户端 (OpenAI兼容模式)", units "Create Zhipu GLM client (OpenAI compatible mode)"⟩,
    ⟨units "CreateVolcengine（Volcengine）客户端", units "Create Volcengine client"⟩,
    ⟨units "Create带有自Define配置的Volcengine客户端", units "Create Volcengine client with custom configuration"⟩,
    ⟨units "CreateTencent Hunyuan（Tencent Hunyuan）客户端", units "Create Tencent Hunyuan client"⟩,
    ⟨units "模型", units "model"⟩,
    ⟨units "配置", units "configuration"⟩,
    ⟨units "客户端", units "client"⟩,
    ⟨units "协议", units "protocol"⟩,
    ⟨units "适配器", units "adapter"⟩,
    ⟨units "提供商", units "provider"⟩,
    ⟨units "请求", units "request"⟩,
    ⟨units "响应", units "response"⟩,
    ⟨units "流式", units "streaming"⟩,
    ⟨units "工具", units "tool"⟩,
    ⟨units "函数", units "function"⟩,
    ⟨units "调用", units "call"⟩,
    ⟨units "端点", units "endpoint"⟩,
    ⟨units "认证", units "authentication"⟩,
    ⟨units "头部", units "headers"⟩,
    ⟨units "实例", units "instance"⟩,
    ⟨units "方法", units "method"⟩,
    ⟨units "辅助", units "helper"⟩,
    ⟨units "构造器", units "constructor"⟩,
    ⟨units "便捷", units "convenience"⟩,
    ⟨units "自Define", units "custom"⟩,
    ⟨units "自定义", units "custom"⟩,
    ⟨units "可选", units "optional"⟩,
    ⟨units "注意", units "Note"⟩,
    ⟨units "如果", units "if"⟩,
    ⟨units "失败", units "fails"⟩,
    ⟨units "成功", units "success"⟩,
    ⟨units "错误", units "error"⟩,
    ⟨units "返回", units "return"⟩,
    ⟨units "等。", units "etc."⟩,
    ⟨units "如", units "such as"⟩,
    ⟨units "例如", units "e.g."⟩,
    ⟨units "或", units "or"⟩,
    ⟨units "和", units "and"⟩,
    ⟨units "的", units ""⟩,
    ⟨units "了", units ""⟩,
    ⟨units "与", units "with"⟩,
    ⟨units "为", units "as"⟩,
    ⟨units "是", units "is"⟩,
    ⟨units "在", units "in"⟩,
    ⟨units "从", units "from"⟩,
    ⟨units "到", units "to"⟩,
    ⟨units "会", units "will"⟩,
    ⟨units "可能", units "may"⟩,
    ⟨units "所有", units "all"⟩,
    ⟨units "这个", units "this"⟩,
    ⟨units "这些", units "these"⟩,
    ⟨units "一个", units "a"⟩,
    ⟨units "用于", units "for"⟩,
    ⟨units "来", units "to"⟩,
    ⟨units "消息内容块Define", units "Message Content Block Definition"⟩,
    ⟨units "消息内容块", units "Message Content Block"⟩,
    ⟨units "文本块", units "Text block"⟩,
    ⟨units "图片块（Base64）", units "Image block (Base64)"⟩,
    ⟨units "图片块（URL）", units "Image block (URL)"⟩,
    ⟨units "图片块（Anthropic 格式）", units "Image block (Anthropic format)"⟩,
    ⟨units "图片 URL 块（OpenAI 格式）", units "Image URL block (OpenAI format)"⟩,
    ⟨units "Create文本块", units "Create text block"⟩,
    ⟨units "Create Base64 图片块（Anthropic 格式）", units "Create Base64 image block (Anthropic format)"⟩,
    ⟨units "媒体类型，such as \"image/jpeg\", \"image/png\"", units "Media type, such as \"image/jpeg\", \"image/png\""⟩,
    ⟨units "Base64 编码图片数据", units "Base64 encoded image data"⟩,
    ⟨units "Create图片 URL 块（Anthropic 格式）", units "Create image URL block (Anthropic format)"⟩,
    ⟨units "Create图片 URL 块（OpenAI 格式）", units "Create image URL block (OpenAI format)"⟩,
    ⟨units "Create图片 URL 块（OpenAI 格式，带 detail Parameters）", units "Create image URL block (OpenAI format, with detail parameter)"⟩,
    ⟨units "图片 URL", units "Image URL"⟩,
    ⟨units "图片细节级别，optional值: \"auto\", \"low\", \"high\"", units "Image detail level, optional values: \"auto\", \"low\", \"high\""⟩,
    ⟨units "Get文本内容（ifis文本块）", units "Get text content (if is text block)"⟩,
    ⟨units "判断is否as文本块", units "Check if is text block"⟩,
    ⟨units "判断is否as图片块", units "Check if is image block"⟩,
    ⟨units "图片to源（Anthropic 格式）", units "Image source (Anthropic format)"⟩,
    ⟨units "Base64 编码图片", units "Base64 encoded image"⟩,
    ⟨units "媒体类型，such as \"image/jpeg\", \"image/png\"", units "Media type, such as \"image/jpeg\", \"image/png\""⟩,
    ⟨units "图片 URL", units "Image URL"⟩,
    ⟨units "图片细节级别", units "Image detail level"⟩,
    ⟨units "optional值: \"auto\", \"low\", \"high\"", units "Optional values: \"auto\", \"low\", \"high\""⟩,
    ⟨units "Provider-specific reasoning content (GLM 风格)", units "Provider-specific reasoning content (GLM style)"⟩,
    ⟨units "Provider-specific reasoning (Qwen/DeepSeek/OpenAI o1 通用键)", units "Provider-specific reasoning (Qwen/DeepSeek/OpenAI o1 common key)"⟩,
    ⟨units "Provider-specific thought (OpenAI o1 键)", units "Provider-specific thought (OpenAI o1 key)"⟩,
    ⟨units "Provider-specific thinking (Anthropic 键)", units "Provider-specific thinking (Anthropic key)"⟩,
    ⟨units "Reasoning (Qwen/DeepSeek/OpenAI o1 通用键)", units "Reasoning (Qwen/DeepSeek/OpenAI o1 common key)"⟩,
    ⟨units "Thought (OpenAI o1 键)", units "Thought (OpenAI o1 key)"⟩,
    ⟨units "Thinking (Anthropic 键)", units "Thinking (Anthropic key)"⟩,
    ⟨units "避免as每个 Provider 编写重复样板代码。", units "Avoids writing repetitive boilerplate code for each Provider."⟩,
    ⟨units "额外静态headers", units "Additional static headers"⟩,
    ⟨units "聊天endpoint模板", units "Chat endpoint template"⟩,
    ⟨units "例such as: `\"\x7bbase_url\x7d/v1/chat/completions\"`", units "Example: `\"\x7bbase_url\x7d/v1/chat/completions\"`"⟩,
    ⟨units "例such as: `\"\x7bbase_url\x7d/v1/models\"`", units "Example: `\"\x7bbase_url\x7d/v1/models\"`"⟩,
    ⟨units "生成: `Authorization: Bearer \x7btoken\x7d`", units "Generates: `Authorization: Bearer \x7btoken\x7d`"⟩,
    ⟨units "生成: `\x7bheader_name\x7d: \x7btoken\x7d`", units "Generates: `\x7bheader_name\x7d: \x7btoken\x7d`"⟩,
    ⟨units "Header 名称", units "Header name"⟩,
    ⟨units "无authentication", units "No authentication"⟩,
    ⟨units "customauthentication（Through闭包）", units "Custom authentication (through closure)"⟩,
    ⟨units "闭包接收 token，Returnsheaders列表", units "Closure receives token, returns headers list"⟩,
    ⟨units "我is豆包", units "I am Doubao"⟩,
    ⟨units "风格", units "style"⟩,
    ⟨units "通用键", units "common key"⟩,
    ⟨units "键", units "key"⟩,
    ⟨units "as", units "as"⟩,
    ⟨units "is", units "is"⟩,
    ⟨units "if", units "if"⟩,
    ⟨units "to", units "to"⟩,
    ⟨units "such as", units "such as"⟩,
    ⟨units "例", units "Example"⟩,
    ⟨units "such as", units "such as"⟩,
    ⟨units "编码", units "encoded"⟩,
    ⟨units "数据", units "data"⟩,
    ⟨units "内容", units "content"⟩,
    ⟨units "判断", units "Check"⟩,
    ⟨units "否", units "if"⟩,
    ⟨units "源", units "source"⟩,
    ⟨units "级别", units "level"⟩,
    ⟨units "值", units "values"⟩,
    ⟨units "额外", units "Additional"⟩,
    ⟨units "静态", units "static"⟩,
    ⟨units "模板", units "template"⟩,
    ⟨units "生成", units "Generates"⟩,
    ⟨units "名称", units "name"⟩,
    ⟨units "无", units "No"⟩,
    ⟨units "接收", units "receives"⟩,
    ⟨units "列表", units "list"⟩,
    ⟨units "避免", units "Avoids"⟩,
    ⟨units "每个", units "each"⟩,
    ⟨units "编写", units "writing"⟩,
    ⟨units "重复", units "repetitive"⟩,
    ⟨units "样板", units "boilerplate"⟩,
    ⟨units "代码", units "code"⟩]

end Emend.Preset
