/-! The catalog of filters. -/
namespace Stencil

inductive Filter
  | upper | lower | capitalize | title | length | sort | reverse | keys | merge | join | default
  | urlEncode | jsonEncode | date
deriving DecidableEq, Repr

namespace Filter

def name : Filter → String
  | .upper => "upper"
  | .lower => "lower"
  | .capitalize => "capitalize"
  | .title => "title"
  | .length => "length"
  | .sort => "sort"
  | .reverse => "reverse"
  | .keys => "keys"
  | .merge => "merge"
  | .join => "join"
  | .default => "default"
  | .urlEncode => "url_encode"
  | .jsonEncode => "json_encode"
  | .date => "date"

/-- Every filter, in catalog order. -/
def catalog : List Filter := [
  .upper, .lower, .capitalize, .title, .length, .sort, .reverse, .keys, .merge, .join, .default,
  .urlEncode, .jsonEncode, .date]

def ofName? (name : String) : Option Filter := catalog.find? (·.name == name)

/-- What a filter takes, in the words of its error message. Filters that take every value have none. -/
def expects : Filter → String
  | .length => "a string, array or mapping"
  | .sort => "an array or mapping"
  | .reverse => "an array, mapping or string"
  | .keys => "an array or mapping"
  | .merge => "an array or mapping"
  | .date => "a timestamp or date string"
  | _ => ""

end Filter
end Stencil
