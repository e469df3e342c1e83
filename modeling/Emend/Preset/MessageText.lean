import Emend.Document

/-! The built-in rules that shorten message literals with nothing but a role and a text. -/

namespace Emend.Preset

def messageText : RuleDocument where
  name := units "message-text"
  description := some (units "Collapse Message struct literals that only set role and text content into Message::text(role, content).")
  items := [
    ⟨units "explicit-none-fields",
      units "Message \x7b role: Role:::[role~\\w+], content: \":[content~[^\"]+]\".to_string(), name: None, tool_calls: None, tool_call_id: None, reasoning_content: None, reasoning: None, thought: None, thinking: None, \x7d",
      units "Message::text(Role:::[role], \":[content]\")"⟩,
    ⟨units "default-fields-string",
      units "Message \x7b role: Role:::[role~\\w+], content: \":[content~[^\"]+]\".to_string(), ..Default::default() \x7d",
      units "Message::text(Role:::[role], \":[content]\")"⟩,
    ⟨units "default-fields-variable",
      units "Message \x7b role: Role:::[role~\\w+], content: :[content~\\w+].to_string(), ..Default::default() \x7d",
      units "Message::text(Role:::[role], :[content])"⟩]

end Emend.Preset
