import Bindery.Package.Unit

/-!
# The runtime unit

The unit of an emitted package that holds the combinators of type expressions.
It is the same in every package, apart from the title in its docstring.
-/

namespace Bindery.Package

def runtimeLines : List String := [
  "",
  "import keyword",
  "import re",
  "from datetime import date, datetime, time, timedelta",
  "from ipaddress import IPv4Address, IPv6Address",
  "from typing import Annotated, Any, Literal, Optional",
  "from uuid import UUID",
  "",
  "from pydantic import (",
  "    AfterValidator,",
  "    AnyUrl,",
  "    BaseModel,",
  "    BeforeValidator,",
  "    ConfigDict,",
  "    Field,",
  "    PlainValidator,",
  "    StrictBool,",
  "    StrictFloat,",
  "    StrictInt,",
  "    StrictStr,",
  "    TypeAdapter,",
  "    ValidationError,",
  ")",
  "",
  "__all__ = [",
  r#"    "Annotated", "Any", "AnyUrl", "CheckError", "Field", "IPv4Address","#,
  r#"    "IPv6Address", "Literal", "Optional", "StrictBool", "StrictFloat","#,
  r#"    "StrictInt", "StrictStr", "UUID", "all_of", "check", "choice", "date","#,
  r#"    "datetime", "email", "formatted", "from_text", "lazy", "model", "one_of","#,
  r#"    "pattern", "prop", "register", "tagged", "time", "timedelta", "union","#,
  r#"    "unique","#,
  "]",
  "",
  r#"_REGISTRY: dict = {}"#,
  r#"_ADAPTERS: dict = {}"#,
  "_MODEL_ATTRIBUTES = frozenset(dir(BaseModel))",
  r#"_EMAIL = re.compile(r"^[^@\s]+@[^@\s]+\.[^@\s]+$")"#,
  "",
  "",
  "class CheckError(ValueError):",
  r#"    """A value failed validation; ``errors`` holds the individual problems.""""#,
  "",
  "    def __init__(self, message, errors=None):",
  "        super().__init__(message)",
  "        self.errors = errors if errors is not None else [",
  r#"            {"type": "value_error", "loc": (), "msg": message}"#,
  "        ]",
  "",
  "",
  "# --- Validation entry points ---",
  "",
  "",
  "def register(name, annotation):",
  r#"    """Record a named type so :func:`lazy` can find it.""""#,
  "    _REGISTRY[name] = annotation",
  "    return annotation",
  "",
  "",
  "def _adapter(annotation):",
  "    entry = _ADAPTERS.get(id(annotation))",
  "    if entry is None or entry[0] is not annotation:",
  "        entry = (annotation, TypeAdapter(annotation))",
  "        _ADAPTERS[id(annotation)] = entry",
  "    return entry[1]",
  "",
  "",
  "def _summary(errors):",
  "    parts = []",
  "    for error in errors:",
  r#"        where = ".".join(str(part) for part in error.get("loc", ())) or "value""#,
  r#"        parts.append(f"{where}: {error.get('msg')}")"#,
  r#"    return "; ".join(parts)"#,
  "",
  "",
  "def check(annotation, value):",
  r#"    """Validate *value* against *annotation* and return the parsed result."#,
  "",
  "    Raises:",
  "        CheckError: The value does not match.",
  r#"    """"#,
  "    try:",
  "        return _adapter(annotation).validate_python(value)",
  "    except ValidationError as exc:",
  "        errors = exc.errors(include_url=False, include_context=False)",
  "        raise CheckError(_summary(errors), errors) from exc",
  "",
  "",
  "def _matches(annotation, value):",
  "    try:",
  "        return True, _adapter(annotation).validate_python(value)",
  "    except ValidationError:",
  "        return False, None",
  "",
  "",
  "# --- Combinators ---",
  "",
  "",
  "def union(*members):",
  r#"    """First member that accepts the value wins.""""#,
  "    if len(members) == 1:",
  "        return members[0]",
  "",
  "    def validate(value):",
  "        for member in members:",
  "            ok, result = _matches(member, value)",
  "            if ok:",
  "                return result",
  r#"        raise ValueError(f"value matches none of {len(members)} alternatives")"#,
  "",
  "    return Annotated[Any, PlainValidator(validate)]",
  "",
  "",
  "def one_of(*members):",
  r#"    """Exactly one member must accept the value.""""#,
  "    if len(members) == 1:",
  "        return members[0]",
  "",
  "    def validate(value):",
  "        found = []",
  "        for member in members:",
  "            ok, result = _matches(member, value)",
  "            if ok:",
  "                found.append(result)",
  "        if not found:",
  r#"            raise ValueError(f"value matches none of {len(members)} alternatives")"#,
  "        if len(found) > 1:",
  r#"            raise ValueError(f"value matches {len(found)} alternatives, expected exactly one")"#,
  "        return found[0]",
  "",
  "    return Annotated[Any, PlainValidator(validate)]",
  "",
  "",
  "def all_of(*members):",
  r#"    """Every member must accept the value; object results are merged."#,
  "",
  "    Declared fields the input set win over defaults; undeclared keys only",
  "    fill gaps.  A non-object result is returned as-is.",
  r#"    """"#,
  "    if len(members) == 1:",
  "        return members[0]",
  "",
  "    def validate(value):",
  r#"        declared, defaults, extras = {}, {}, {}"#,
  "        scalar, is_object = None, False",
  "        for member in members:",
  "            result = check(member, value)",
  "            if isinstance(result, BaseModel):",
  "                is_object = True",
  "                for name, info in type(result).model_fields.items():",
  "                    key = info.alias or name",
  "                    if name in result.model_fields_set:",
  "                        declared[key] = getattr(result, name)",
  "                    elif info.default is not None:",
  "                        defaults.setdefault(key, getattr(result, name))",
  r#"                for key, item in (result.__pydantic_extra__ or {}).items():"#,
  "                    extras.setdefault(key, item)",
  "            elif isinstance(result, dict):",
  "                is_object = True",
  "                for key, item in result.items():",
  "                    extras.setdefault(key, item)",
  "            else:",
  "                scalar = result",
  "        if not is_object:",
  "            return scalar",
  "        for source in (defaults, extras):",
  "            for key, item in source.items():",
  "                declared.setdefault(key, item)",
  "        return declared",
  "",
  "    return Annotated[Any, PlainValidator(validate)]",
  "",
  "",
  "def tagged(prop_name, mapping):",
  r#"    """Pick the member by the value of the discriminator property.""""#,
  "",
  "    def validate(value):",
  "        if not isinstance(value, dict):",
  r#"            raise ValueError("expected an object")"#,
  "        if prop_name not in value:",
  r#"            raise ValueError(f"missing discriminator property {prop_name!r}")"#,
  "        tag = value[prop_name]",
  "        try:",
  "            member = mapping[tag]",
  "        except (KeyError, TypeError):",
  r#"            raise ValueError(f"unknown {prop_name!r} value {tag!r}") from None"#,
  "        return check(member, value)",
  "",
  "    return Annotated[Any, PlainValidator(validate)]",
  "",
  "",
  "def lazy(name):",
  r#"    """Refer to a registered type that is defined later (cycles).""""#,
  "",
  "    def validate(value):",
  "        return check(_REGISTRY[name], value)",
  "",
  "    return Annotated[Any, PlainValidator(validate)]",
  "",
  "",
  "def choice(*values):",
  r#"    """Enum over values that cannot appear in ``Literal``.""""#,
  "",
  "    def validate(value):",
  "        for allowed in values:",
  "            if type(value) is type(allowed) and value == allowed:",
  "                return value",
  r#"        raise ValueError(f"value must be one of {list(values)!r}")"#,
  "",
  "    return Annotated[Any, PlainValidator(validate)]",
  "",
  "",
  "def formatted(parsed, text):",
  r#"    """A string format: *text* checks the wire string, *parsed* converts it.""""#,
  "",
  "    def require(value):",
  "        check(text, value)",
  "        return value",
  "",
  "    return Annotated[parsed, BeforeValidator(require)]",
  "",
  "",
  "def from_text(*kinds):",
  r#"    """Parse a textual parameter value into the first of *kinds* that accepts it.""""#,
  "",
  "    def convert(value):",
  "        if not isinstance(value, str):",
  "            return value",
  "        for kind in kinds:",
  "            ok, result = _matches(kind, value)",
  "            if ok:",
  "                return result",
  "        return value",
  "",
  "    return BeforeValidator(convert)",
  "",
  "",
  "def pattern(regex):",
  "    compiled = re.compile(regex)",
  "",
  "    def validate(value):",
  "        if compiled.search(value) is None:",
  r#"            raise ValueError(f"string does not match pattern {regex!r}")"#,
  "        return value",
  "",
  "    return AfterValidator(validate)",
  "",
  "",
  "def _email(value):",
  "    if not _EMAIL.match(value):",
  r#"        raise ValueError("value is not a valid email address")"#,
  "    return value",
  "",
  "",
  "def _unique(value):",
  "    for i, item in enumerate(value):",
  "        if any(item == other for other in value[:i]):",
  r#"            raise ValueError("array items must be unique")"#,
  "    return value",
  "",
  "",
  "email = AfterValidator(_email)",
  "unique = AfterValidator(_unique)",
  "",
  "",
  "# --- Object models ---",
  "",
  "",
  "def prop(annotation, *, required=False, default=None):",
  r#"    """Declare one object property for :func:`model`.""""#,
  "    return (annotation, required, default)",
  "",
  "",
  "def _attribute(key, taken):",
  r#"    name = re.sub(r"\W", "_", key)"#,
  r#"    if not name or name[0].isdigit() or name.startswith("_") or name.startswith("model_"):"#,
  r#"        name = f"f_{name}""#,
  "    if keyword.iskeyword(name) or name in _MODEL_ATTRIBUTES:",
  r#"        name += "_""#,
  "    base, n = name, 1",
  "    while name in taken:",
  "        n += 1",
  r#"        name = f"{base}{n}""#,
  "    taken.add(name)",
  "    return name",
  "",
  "",
  r#"def model(name, props, *, extra="allow", extra_type=None):"#,
  r#"    """Build a pydantic model whose fields keep their wire names as aliases.""""#,
  r#"    annotations = {}"#,
  r#"    namespace = {"__module__": __name__, "__annotations__": annotations}"#,
  "    taken = set()",
  "    for key, (annotation, required, default) in props.items():",
  "        attribute = _attribute(key, taken)",
  "        annotations[attribute] = annotation",
  "        if required:",
  "            namespace[attribute] = Field(alias=key)",
  "        else:",
  "            # absent reads as the default; an explicit null still has to match",
  "            namespace[attribute] = Field(",
  "                default=default,",
  "                alias=key,",
  "                validate_default=isinstance(default, (dict, list)),",
  "            )",
  r#"    if extra == "allow" and extra_type is not None:"#,
  r#"        annotations["__pydantic_extra__"] = dict[str, extra_type]"#,
  r#"    namespace["model_config"] = ConfigDict(extra=extra, populate_by_name=True)"#,
  "    return type(name, (BaseModel,), namespace)"]

def runtimeDoc (title : String) : String :=
  docstring ("Validation combinators used by the " ++ docLine title ++ " bindings.")
    [generatedBy ++ ". Do not edit."]

def runtimeUnit (title : String) : SourceUnit :=
  .ofLines "_runtime.py" (runtimeDoc title) runtimeLines

end Bindery.Package
