import LiveMarkup.Text.Bytes

/-!
# The page of the playground

The playground is a page with an editor and a preview of the compiled document. The preview is an
inner frame whose document is an attribute; its scripts run, but cannot reach the page.
-/

namespace LiveMarkup

namespace Playground

/-- The source that the editor starts with if none is given. -/
def demoSource : Bytes :=
  utf8 "state count = 0\nstate name = \"NML User\"\n\ndiv.container \x7b\n  style \x7b\n"
    ++ utf8 "    padding: \"20px\"\n    background_color: \"#f8f9fa\"\n    border_radius: \"8px\"\n"
    ++ utf8 "    text_align: \"center\"\n  \x7d\n\n  h2 \"Hello, \" name\n  p \"Count: \" count\n\n"
    ++ utf8 "  div.buttons \x7b\n    style \x7b margin_top: \"20px\" \x7d\n\n"
    ++ utf8 "    button(on: click \x7b count.value += 1 \x7d) \x7b\n      style \x7b\n"
    ++ utf8 "        background_color: \"#42b983\"\n        color: \"white\"\n"
    ++ utf8 "        border: \"none\"\n        padding: \"8px 16px\"\n"
    ++ utf8 "        border_radius: \"4px\"\n        margin_right: \"10px\"\n      \x7d\n"
    ++ utf8 "      \"Increment\"\n    \x7d\n\n"
    ++ utf8 "    button(on: click \x7b count.value = 0 \x7d) \x7b\n      style \x7b\n"
    ++ utf8 "        background_color: \"#e74c3c\"\n        color: \"white\"\n"
    ++ utf8 "        border: \"none\"\n        padding: \"8px 16px\"\n"
    ++ utf8 "        border_radius: \"4px\"\n      \x7d\n      \"Reset\"\n    \x7d\n  \x7d\n\x7d\n"

/-- The style sheet of the page. -/
def styleSheet : Bytes :=
  utf8 "*\x7bbox-sizing:border-box\x7d"
    ++ utf8 "body\x7bmargin:0;font-family:sans-serif;display:flex;"
    ++ utf8 "flex-direction:column;height:100vh\x7d"
    ++ utf8 "header\x7bpadding:8px 16px;background:#222;color:#eee\x7d"
    ++ utf8 "main\x7bflex:1;display:flex;min-height:0\x7d"
    ++ utf8 "#source\x7bflex:1;font-family:monospace;font-size:14px;"
    ++ utf8 "padding:12px;border:0;resize:none\x7d"
    ++ utf8 "#preview\x7bflex:1;border:0;border-left:1px solid #ccc\x7d"
    ++ utf8 "#diagnostics\x7bmargin:0;padding:8px 16px;max-height:8em;overflow:auto;"
    ++ utf8 "background:#fff8e1;font-size:12px\x7d"
    ++ utf8 "#diagnostics:empty\x7bdisplay:none\x7d"

/-- The script of the page: every edit is sent to the session, and every document that comes back
replaces the preview. -/
def script : Bytes :=
  utf8 "\n(function () \x7b\n  var source = document.getElementById(\"source\");\n"
    ++ utf8 "  var preview = document.getElementById(\"preview\");\n"
    ++ utf8 "  var diagnostics = document.getElementById(\"diagnostics\");\n"
    ++ utf8 "  var scheme = location.protocol === \"https:\" ? \"wss://\" : \"ws://\";\n"
    ++ utf8 "  var ws = new WebSocket(scheme + location.host + location.pathname);\n\n"
    ++ utf8 "  function send() \x7b\n    if (ws.readyState === WebSocket.OPEN) \x7b\n"
    ++ utf8 "      ws.send(JSON.stringify(\x7bsource: source.value\x7d));\n    \x7d\n  \x7d\n\n"
    ++ utf8 "  ws.onmessage = function (e) \x7b\n    var msg = JSON.parse(e.data);\n"
    ++ utf8 "    preview.srcdoc = msg.document;\n"
    ++ utf8 "    diagnostics.textContent = msg.diagnostics.map(function (d) \x7b\n"
    ++ utf8 "      return d.line + \":\" + d.column + \": \" + d.severity + \": \" + d.message;\n"
    ++ utf8 "    \x7d).join(\"\\n\");\n  \x7d;\n  ws.onclose = function () \x7b\n"
    ++ utf8 "    diagnostics.textContent = \"disconnected\";\n  \x7d;\n"
    ++ utf8 "  source.addEventListener(\"input\", send);\n\x7d)();\n"

/-- How an octet is written in a text or an attribute value. -/
def escapeOctet (b : UInt8) : Bytes :=
  if b = 0 then utf8 "\ufffd"
  else if b = octet '"' then utf8 "&#34;"
  else if b = octet '\'' then utf8 "&#39;"
  else if b = octet '&' then utf8 "&amp;"
  else if b = octet '<' then utf8 "&lt;"
  else if b = octet '>' then utf8 "&gt;"
  else [b]

/-- A text with the octets of HTML escaped. -/
def escape (s : Bytes) : Bytes := s.flatMap escapeOctet

/-- What stands in front of every page. -/
def doctype : Bytes := utf8 "<!doctype html>"

/-- The declaration of the encoding. -/
def encoding : Bytes := utf8 "<meta charset=\"utf-8\">"

/-- The name of the playground. -/
def title : Bytes := utf8 "NML Playground"

/-- The page up to the source. -/
def opening : Bytes :=
  doctype ++ utf8 "<html lang=\"en\"><head>" ++ encoding
    ++ utf8 "<title>" ++ title ++ utf8 "</title>"
    ++ utf8 "<style>" ++ styleSheet ++ utf8 "</style></head>"
    ++ utf8 "<body><header>" ++ title ++ utf8 "</header>"
    ++ utf8 "<main><textarea id=\"source\" spellcheck=\"false\">"

/-- What stands between the source and the document. -/
def middle : Bytes :=
  utf8 "</textarea>" ++ utf8 "<iframe id=\"preview\" sandbox=\"allow-scripts\" srcdoc=\""

/-- The page from the document on. -/
def closing : Bytes :=
  utf8 "\"></iframe></main>" ++ utf8 "<pre id=\"diagnostics\"></pre>"
    ++ utf8 "<script>" ++ script ++ utf8 "</script></body></html>"

/-- The page for a source and its document. -/
def page (src doc : Bytes) : Bytes := opening ++ escape src ++ middle ++ escape doc ++ closing

/-- The document that is shown in place of one that could not be compiled. -/
def errorDocument (message : Bytes) : Bytes :=
  doctype ++ utf8 "<html><head>" ++ encoding ++ utf8 "</head>"
    ++ utf8 "<body><h1>Compile failed</h1><pre>" ++ escape message ++ utf8 "</pre></body></html>"

end Playground

end LiveMarkup
