import Bindery.Package.Unit

/-!
# The support unit

The unit of an emitted package that sends requests and holds the types of
server requests.  It is the same in every package, apart from the title in its
docstring and the list of servers.
-/

namespace Bindery.Package

def supportImports : List String := [
  "",
  "import re",
  "from dataclasses import dataclass, field",
  "from typing import Any, Callable, Mapping, Optional, Sequence, Union",
  "from urllib.parse import quote",
  "",
  "import httpx",
  "",
  "from ._runtime import CheckError, check",
  ""]

def supportLines : List String := [
  r#"DEFAULT_BASE_URL = SERVERS[0] if SERVERS else "http://localhost""#,
  "",
  r#"_PATH_PARAMETER = re.compile(r"\{([^}]+)\}")"#,
  "",
  "",
  "def _media_type(content_type):",
  r#"    return (content_type or "").split(";", 1)[0].strip().lower()"#,
  "",
  "",
  "def _is_json(media):",
  r#"    return media == "application/json" or media.endswith("+json")"#,
  "",
  "",
  "def _select(variants, content_type):",
  r#"    """Schema for *content_type* among *variants*, honouring ``type/*`` ranges.""""#,
  "    media = _media_type(content_type)",
  "    fallback = None",
  "    for declared, schema in variants.items():",
  "        declared = _media_type(declared)",
  "        if declared == media:",
  "            return True, schema",
  r#"        if declared == "*/*" or (declared.endswith("/*") and media.startswith(declared[:-1])):"#,
  "            if fallback is None:",
  "                fallback = (True, schema)",
  "    return fallback or (False, None)",
  "",
  "",
  "# ------------------------------------------------------------------ #",
  "# Client",
  "# ------------------------------------------------------------------ #",
  "",
  "",
  "@dataclass(frozen=True)",
  "class ClientConfig:",
  r#"    """Where and how requests are sent."#,
  "",
  "    Attributes:",
  "        base_url: Server URL the operation paths are appended to.",
  "        headers: Sent with every request (authentication goes here).",
  "        timeout: Request timeout in seconds.",
  "        transport: Optional ``httpx`` transport, e.g. ``httpx.MockTransport``.",
  r#"    """"#,
  "",
  "    base_url: str = DEFAULT_BASE_URL",
  "    headers: Mapping[str, str] = field(default_factory=dict)",
  "    timeout: float = 30.0",
  "    transport: Optional[httpx.BaseTransport] = None",
  "",
  "    def client(self, exclude: Sequence[str] = ()) -> httpx.Client:",
  r#"        """Open an ``httpx.Client``, leaving out the headers named in *exclude*.""""#,
  r#"        dropped = {name.lower() for name in exclude}"#,
  "        return httpx.Client(",
  "            base_url=self.base_url,",
  r#"            headers={k: v for k, v in self.headers.items() if k.lower() not in dropped},"#,
  "            timeout=self.timeout,",
  "            transport=self.transport,",
  "        )",
  "",
  "",
  "class UnexpectedResponseError(Exception):",
  r#"    """The server answered with a status the operation does not declare.""""#,
  "",
  "    def __init__(self, status_code, body):",
  r#"        super().__init__(f"undeclared response status {status_code}")"#,
  "        self.status_code = status_code",
  "        self.body = body",
  "",
  "",
  "@dataclass",
  "class ApiResponse:",
  r#"    """A decoded response, tagged with the declared status it matched."#,
  "",
  r#"    ``status`` is the declared key (``"200"``, ``"2XX"`` or ``"default"``);"#,
  "    ``body`` is the decoded but unvalidated payload.  Call :meth:`parse` to",
  "    validate it against the declared schema.",
  r#"    """"#,
  "",
  "    status_code: int",
  "    status: str",
  "    content_type: Optional[str]",
  "    headers: Mapping[str, str]",
  "    body: Any",
  "    schema: Any = None",
  "    void: bool = False",
  "    _parsed: Any = field(default=None, repr=False)",
  "    _done: bool = field(default=False, repr=False)",
  "",
  "    def parse(self):",
  r#"        """Return the validated body; ``None`` for a void response."#,
  "",
  "        Raises:",
  "            CheckError: The body does not match the declared schema.",
  r#"        """"#,
  "        if self.void:",
  "            return None",
  "        if not self._done:",
  "            self._parsed = check(self.schema, self.body)",
  "            self._done = True",
  "        return self._parsed",
  "",
  "",
  "def select_status(responses, status_code):",
  r#"    """Declared key for *status_code*: exact, then range, then ``default``.""""#,
  "    code = str(status_code)",
  r#"    for key in (code, f"{code[0]}XX", f"{code[0]}xx", "default"):"#,
  "        if key in responses:",
  "            return key",
  "    return None",
  "",
  "",
  "def decode_body(response):",
  "    if not response.content:",
  "        return None",
  r#"    media = _media_type(response.headers.get("content-type"))"#,
  "    if _is_json(media):",
  "        return response.json()",
  r#"    if media.startswith("text/"):"#,
  "        return response.text",
  "    return response.content",
  "",
  "",
  "def build_response(response, responses, *, force_validation=False):",
  r#"    """Turn an ``httpx.Response`` into an :class:`ApiResponse`."#,
  "",
  "    Raises:",
  "        UnexpectedResponseError: The status is not declared.",
  r#"    """"#,
  "    body = decode_body(response)",
  "    status = select_status(responses, response.status_code)",
  "    if status is None:",
  "        raise UnexpectedResponseError(response.status_code, body)",
  "",
  "    variants = responses[status]",
  r#"    content_type = response.headers.get("content-type")"#,
  "    schema = Any",
  "    if variants:",
  "        found, selected = _select(variants, content_type)",
  "        schema = selected if found else next(iter(variants.values()))",
  "    result = ApiResponse(",
  "        status_code=response.status_code,",
  "        status=status,",
  "        content_type=content_type,",
  "        headers=dict(response.headers),",
  "        body=body,",
  "        schema=schema,",
  "        void=variants is None,",
  "    )",
  "    if force_validation:",
  "        result.parse()",
  "    return result",
  "",
  "",
  "def expand_path(template, values):",
  "    def replace(match):",
  "        name = match.group(1)",
  "        if values.get(name) is None:",
  r#"            raise ValueError(f"missing path parameter {name!r}")"#,
  r#"        return quote(str(values[name]), safe="")"#,
  "",
  "    return _PATH_PARAMETER.sub(replace, template)",
  "",
  "",
  "def _plain(value):",
  r#"    if hasattr(value, "model_dump"):"#,
  r#"        return value.model_dump(mode="json", by_alias=True, exclude_unset=True)"#,
  "    return value",
  "",
  "",
  "def encode_body(body, content_type):",
  r#"    """``httpx`` keyword arguments carrying *body* as *content_type*.""""#,
  "    if body is None:",
  r#"        return {}"#,
  "    media = _media_type(content_type)",
  "    data = _plain(body)",
  "    if _is_json(media):",
  r#"        return {"json": data}"#,
  r#"    if media == "application/x-www-form-urlencoded":"#,
  r#"        return {"data": data}"#,
  r#"    if media == "multipart/form-data":"#,
  r#"        files = {k: v for k, v in data.items() if isinstance(v, (bytes, bytearray))}"#,
  r#"        fields = {k: v for k, v in data.items() if k not in files}"#,
  r#"        return {"data": fields, "files": files}"#,
  "    if isinstance(data, (bytes, bytearray, str)):",
  r#"        return {"content": data, "headers": {"Content-Type": content_type}}"#,
  r#"    return {"json": data}"#,
  "",
  "",
  "def send(",
  "    config,",
  "    method,",
  "    path,",
  "    *,",
  "    responses,",
  "    path_params=None,",
  "    query=None,",
  "    headers=None,",
  "    cookies=None,",
  "    body=None,",
  "    content_type=None,",
  "    strip_headers=(),",
  "    force_validation=False,",
  "):",
  r#"    """Send one request and decode the response."#,
  "",
  "    ``None`` values in *query*, *headers* and *cookies* are left out.",
  "    Headers in *strip_headers* are removed from the configured defaults.",
  r#"    """"#,
  r#"    request_headers = {k: str(v) for k, v in (headers or {}).items() if v is not None}"#,
  r#"    jar = {k: str(v) for k, v in (cookies or {}).items() if v is not None}"#,
  "    if jar:",
  r#"        request_headers["Cookie"] = "; ".join(f"{k}={v}" for k, v in jar.items())"#,
  "    encoded = encode_body(body, content_type)",
  r#"    request_headers.update(encoded.pop("headers", {}))"#,
  "",
  "    with config.client(exclude=strip_headers) as client:",
  "        response = client.request(",
  "            method.upper(),",
  r#"            expand_path(path, path_params or {}),"#,
  r#"            params={k: v for k, v in (query or {}).items() if v is not None},"#,
  "            headers=request_headers,",
  "            **encoded,",
  "        )",
  "    return build_response(response, responses, force_validation=force_validation)",
  "",
  "",
  "# ------------------------------------------------------------------ #",
  "# Server",
  "# ------------------------------------------------------------------ #",
  "",
  "",
  "@dataclass(frozen=True)",
  "class RawRequest:",
  r#"    """An incoming request as the web framework hands it over.""""#,
  "",
  "    query: Mapping[str, Any] = field(default_factory=dict)",
  "    path: Mapping[str, Any] = field(default_factory=dict)",
  "    headers: Mapping[str, Any] = field(default_factory=dict)",
  "    body: Any = None",
  "    content_type: Optional[str] = None",
  "",
  "",
  "@dataclass(frozen=True)",
  "class ValidatedRequest:",
  "    query: Any",
  "    path: Any",
  "    headers: Any",
  "    body: Any",
  "    content_type: Optional[str] = None",
  "",
  "",
  "@dataclass(frozen=True)",
  "class ValidationOk:",
  "    value: ValidatedRequest",
  r#"    type: str = "ok""#,
  "",
  "",
  "@dataclass(frozen=True)",
  "class ValidationFailure:",
  r#"    """``type`` is one of query_error, path_error, headers_error, body_error.""""#,
  "",
  "    type: str",
  "    errors: list",
  "",
  "",
  "ValidationOutcome = Union[ValidationOk, ValidationFailure]",
  "",
  "",
  "@dataclass(frozen=True)",
  "class Route:",
  "    operation_id: str",
  "    method: str",
  "    path: str",
  "    handler: Callable[[RawRequest], Any]",
  "",
  "",
  "def check_body(variants, body, content_type, *, required=False):",
  r#"    """Validate a request body against the schema for its content type."#,
  "",
  "    A body sent with a content type the operation does not declare is",
  "    passed through unvalidated.",
  "",
  "    Raises:",
  "        CheckError: The body is missing but required, or does not match.",
  r#"    """"#,
  "    if body is None:",
  "        if required:",
  r#"            raise CheckError("request body is required")"#,
  "        return None",
  "    if not variants:",
  "        return body",
  "    if content_type is None:",
  "        return check(next(iter(variants.values())), body)",
  "    found, schema = _select(variants, content_type)",
  "    return check(schema, body) if found else body"]

def supportDoc (title : String) : String :=
  docstring ("Client transport and server-side request types for the " ++ docLine title ++
    " bindings.") [generatedBy ++ ". Do not edit."]

def supportUnit (title : String) (servers : List String) : SourceUnit :=
  .ofLines "_support.py" (supportDoc title)
    (supportImports ++ ["SERVERS = " ++ textList servers] ++ supportLines)

end Bindery.Package
