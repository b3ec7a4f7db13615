/-!
Names that are commonly used without their import, and the modules they come from.
-/

namespace LivePreview

/-- A name and the module that exports it. -/
structure KnownName where
  name : String
  module : String
  /-- The name stands for the default export of the module. -/
  isDefault : Bool
deriving DecidableEq, Repr

namespace KnownName

/-- Named exports of a module. -/
def namedFrom (module : String) (names : List String) : List KnownName :=
  names.map fun name => ⟨name, module, false⟩

/-- The names that are known. -/
def table : List KnownName :=
  [⟨"React", "react", true⟩] ++
  namedFrom "react" ["useState", "useEffect", "useRef", "useMemo", "useCallback", "useContext",
    "useReducer", "useLayoutEffect", "useId", "useTransition", "createContext", "forwardRef", "memo",
    "lazy", "Fragment", "Suspense"] ++
  namedFrom "react-dom/client" ["createRoot"] ++
  namedFrom "react-router-dom" ["useNavigate", "useParams", "useLocation", "useSearchParams", "Link",
    "NavLink", "Routes", "Route", "BrowserRouter", "Navigate"] ++
  namedFrom "lucide-react" ["ArrowRight", "ArrowLeft", "Check", "ChevronDown", "ChevronRight",
    "ChevronLeft", "Menu", "X", "Search", "Plus", "Minus", "Trash2", "Edit", "Star", "Heart", "User",
    "Users", "Settings", "Loader2", "Mail", "Phone", "Calendar", "Sun", "Moon", "ShoppingCart",
    "Bell", "LogOut"] ++
  namedFrom "@/lib/utils" ["cn"] ++
  namedFrom "clsx" ["clsx"] ++
  namedFrom "tailwind-merge" ["twMerge"] ++
  namedFrom "framer-motion" ["motion", "AnimatePresence"] ++
  namedFrom "sonner" ["toast", "Toaster"] ++
  namedFrom "zod" ["z"] ++
  [⟨"axios", "axios", true⟩]

/-- What is known of a name. -/
def find? (name : String) : Option KnownName := table.find? (·.name == name)

end KnownName

end LivePreview
